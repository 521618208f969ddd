import Mathlib.Tactic.SplitIfs
import TileScript.Proofs.Activation
import TileScript.Proofs.Rows

/-! # What interrupts a statement

The errors that can stop a statement: none of them is about blocks, the budget or the scripts of
called functions, and one about conditions is the one that the check raises for the same condition.
A call stops it for a value, unless it is the last one of a bare chain. On its way there the world
and the pause change by calls of system functions only, so what these keep is kept by the whole
statement.
-/

namespace TileScript

/-- Whether evaluating a statement can raise an error. -/
def ScriptError.isEvaluation : ScriptError → Bool
  | .unexpectedKeyword _ | .unclosedBlock | .lostResume _ | .scriptNotFound _ | .emptyScript _
  | .callDepthExceeded _ | .budgetExceeded => false
  | _ => true

/-- Whether a condition that cannot be read raises an error. -/
def ScriptError.isCondition : ScriptError → Bool
  | .invalidCondition _ | .unknownOperator _ => true
  | _ => false

/-- Every error is one that evaluating a statement can raise. -/
def Evaluates {α : Type} (x : Except ScriptError α) : Prop :=
  ∀ e, x = .error e → e.isEvaluation = true

/-- Whether evaluating an expression can raise an error. -/
def ScriptError.isOperand (e : ScriptError) : Bool := e.isEvaluation && !e.isCondition

/-- Every error is one that evaluating an expression can raise. -/
def Operates {α : Type} (x : Except ScriptError α) : Prop :=
  ∀ e, x = .error e → e.isOperand = true

/-- What can stop an evaluation; if its value is wanted, a call wants its value, too. -/
def Interrupt.Expected (wanted : Bool) : Interrupt → Prop
  | .error e => e.isEvaluation = true
  | .call q => wanted = true → q.resume.isSome = true
  | .exit _ => True

/-- Whatever stops an evaluation is expected. -/
def Eval.Stops (wanted : Bool) {α : Type} (x : Eval α) : Prop :=
  ∀ σ i σ', x.run σ = .error i σ' → i.Expected wanted

section Failures

variable {α β : Type}

theorem Operates.ok (a : α) : Operates (.ok a) := by
  rintro e ⟨⟩

theorem Operates.error {e : ScriptError} (h : e.isOperand = true) :
    Operates (.error e : Except ScriptError α) := by
  rintro _ ⟨⟩
  exact h

theorem Operates.bind {x : Except ScriptError α} {f : α → Except ScriptError β}
    (hx : Operates x) (hf : ∀ a, Operates (f a)) : Operates (x >>= f) := by
  cases x with
  | error e => exact .error (hx e rfl)
  | ok a => exact hf a

theorem Comparison.apply_operates (op : Comparison) (a b : Value) :
    Operates (op.apply a b) := by
  have operand (v : Value) : Operates (Comparison.operand v) := by
    unfold Comparison.operand
    split
    · exact .ok _
    · exact .error rfl
  have ordering (holds : Int64 → Int64 → Bool) :
      Operates (Comparison.ordering holds a b) :=
    (operand a).bind fun _ => (operand b).bind fun _ => .ok _
  cases op with
  | eq | ne => exact .ok _
  | lt | le | gt | ge => exact ordering _

theorem Condition.conclude_evaluates (c : Condition) (t : Tally) :
    Evaluates (c.conclude t) := by
  rintro e he
  unfold conclude at he
  split at he
  · next f _ =>
    cases he
    cases f with
    | incomplete | unknownOperator => rfl
  · cases he
  · cases he
    rfl

theorem Statement.splitDefinition_operates (definition : List Char) :
    Operates (splitDefinition definition) := by
  unfold splitDefinition
  split
  · exact .error rfl
  · dsimp only
    split
    · exact .ok _
    · exact .error rfl

namespace Scope

theorem accumulate_operates (op : ArithmeticOp) (acc : Option Int64) (v : Value) :
    Operates (accumulate op acc v) := by
  unfold accumulate
  split
  · exact .error rfl
  · exact .ok _
  · split
    · exact .ok _
    · exact .error rfl

theorem readProperty_operates (w : World) (target : Option Value) (name : List Char) :
    Operates (readProperty w target name) := by
  unfold readProperty
  dsimp only
  split
  · split
    · exact .ok _
    · exact .error rfl
  · exact .error rfl

theorem checkArity_operates (f : FunctionDescriptor) (got : Nat) :
    Operates (checkArity f got) := by
  unfold checkArity
  split_ifs
  · exact .error rfl
  · exact .error rfl
  · exact .ok _

theorem existingEntity_operates (w : World) (id : EntityId) :
    Operates (existingEntity w id) := by
  unfold existingEntity
  split
  · exact .ok _
  · exact .error rfl

variable (s : Scope)

theorem resolveRoot_operates (w : World) (word : List Char) :
    Operates (s.resolveRoot w word) := by
  unfold resolveRoot
  dsimp only
  split_ifs
  · exact .ok _
  · exact .error rfl
  · exact .ok _
  · exact .error rfl
  · split
    · split
      · exact .ok _
      · exact .error rfl
    · split
      · exact .ok _
      · exact .error rfl

theorem entityCall_operates (w : World) (id : EntityId) (f : FunctionDescriptor)
    (params : List Value) (resume : Option ResumePoint) :
    Operates (s.entityCall w id f params resume) := by
  refine (checkArity_operates f _).bind fun _ => (existingEntity_operates w _).bind fun caller =>
    (existingEntity_operates w _).bind fun callee => ?_
  dsimp only
  split_ifs
  · exact .error rfl
  · exact .error rfl
  · exact .ok _

theorem itemCall_operates (w : World) (id : ItemId) (f : FunctionDescriptor)
    (params : List Value) (resume : Option ResumePoint) :
    Operates (s.itemCall w id f params resume) := by
  refine (checkArity_operates f _).bind fun _ =>
    (existingEntity_operates w _).bind fun caller => ?_
  split_ifs
  · exact .error rfl
  · exact .ok _

theorem functionCall?_operates {w : World} {target : Option Value} {name : String}
    {params : List Value} {resume : Option ResumePoint} {x : Except ScriptError CallRequest}
    (h : s.functionCall? w target name params resume = some x) : Operates x := by
  unfold functionCall? at h
  split at h
  · obtain ⟨f, -, rfl⟩ := Option.map_eq_some_iff.1 h
    exact s.entityCall_operates _ _ _ _ _
  · obtain ⟨f, -, rfl⟩ := Option.map_eq_some_iff.1 h
    exact s.itemCall_operates _ _ _ _ _
  · cases h

end Scope

end Failures

/-- What can stop the evaluation of an expression. -/
def Interrupt.Operand (wanted : Bool) : Interrupt → Prop
  | .error e => e.isOperand = true
  | .call q => wanted = true → q.resume.isSome = true
  | .exit _ => True

theorem Interrupt.Operand.expected {wanted : Bool} {i : Interrupt} (h : i.Operand wanted) :
    i.Expected wanted := by
  cases i with
  | error e => exact (Bool.and_eq_true_iff.1 h).1
  | call q => exact h
  | exit v => trivial

namespace Eval

variable {α β : Type} {R : EvalState → EvalState → Prop} {wanted : Bool} {x : Eval α}

/-- How an evaluation from `σ` can end: the states are related, and what stops it can stop an
expression. -/
inductive Left (R : EvalState → EvalState → Prop) (wanted : Bool) (σ : EvalState) :
    EStateM.Result Interrupt EvalState α → Prop where

  | ok {a : α} {σ' : EvalState} : R σ σ' → Left R wanted σ (.ok a σ')

  | stopped {i : Interrupt} {σ' : EvalState} : R σ σ' → i.Operand wanted →
      Left R wanted σ (.error i σ')

def Leaves (R : EvalState → EvalState → Prop) (wanted : Bool) (x : Eval α) : Prop :=
  ∀ σ, Left R wanted σ (x.run σ)

theorem Leaves.of_wanted (h : Leaves R true x) : Leaves R wanted x := by
  intro σ
  have hl := h σ
  generalize x.run σ = r at hl
  cases hl with
  | ok hr => exact .ok hr
  | @stopped i _ hr hi =>
    refine .stopped hr ?_
    cases i with
    | error e => exact hi
    | call q => exact fun _ => hi rfl
    | exit v => trivial

end Eval

/-- Whether what a system function asks for makes the script pause. -/
def SystemReturn.pauses (r : SystemReturn) : Bool :=
  (r.data.bind Sentinel.decode?).isNone && !r.exit && r.cooldown != 0

/-- The state behind a call of a system function. -/
def EvalState.behind (σ : EvalState) (x : SystemReturn × World) : EvalState where
  world := x.2
  pause :=
    if x.1.pauses then some (σ.pause.elim x.1.cooldown.toNat (Nat.max x.1.cooldown.toNat))
    else σ.pause

/-- A relation between the states of an evaluation that every call of a system function keeps. -/
structure Scope.Admits (s : Scope) (R : EvalState → EvalState → Prop) : Prop where
  refl (σ : EvalState) : R σ σ
  trans {σ₁ σ₂ σ₃ : EvalState} : R σ₁ σ₂ → R σ₂ σ₃ → R σ₁ σ₃
  call {name : String} {f : SystemFunction} (accessor : Accessor) (params : List Value)
    (σ : EvalState) : s.env.systems[name]? = some f →
    R σ (σ.behind (f { entity := s.entity, authority := s.authority, accessor, params } σ.world))

namespace Scope

theorem admits_all (s : Scope) : s.Admits fun _ _ => True :=
  ⟨fun _ => trivial, fun _ _ => trivial, fun _ _ _ _ => trivial⟩

open Eval

variable {s : Scope} {R : EvalState → EvalState → Prop} {α β : Type} {wanted : Bool} {x : Eval α}

theorem Admits.pure (h : s.Admits R) (a : α) : Leaves R wanted (Pure.pure a : Eval α) :=
  fun σ => .ok (h.refl σ)

theorem Admits.fail (h : s.Admits R) {e : ScriptError} (he : e.isOperand = true) :
    Leaves R wanted (Eval.fail e : Eval α) := fun σ => .stopped (h.refl σ) he

theorem Admits.ofExcept (h : s.Admits R) {e : Except ScriptError α} (he : Operates e) :
    Leaves R wanted (Eval.ofExcept e) := by
  cases e with
  | ok a => exact h.pure a
  | error e => exact h.fail (he e rfl)

theorem Admits.world (h : s.Admits R) : Leaves R wanted Eval.world := fun σ => .ok (h.refl σ)

theorem Admits.bind (h : s.Admits R) {f : α → Eval β} (hx : Leaves R wanted x)
    (hf : ∀ a, Leaves R wanted (f a)) : Leaves R wanted (x >>= f) := by
  intro σ
  have hl := hx σ
  rw [EStateM.run_bind]
  generalize x.run σ = r at hl
  cases hl with
  | @ok a σ₁ hr =>
    have hl := hf a σ₁
    dsimp only
    generalize (f a).run σ₁ = r at hl
    cases hl with
    | ok hr' => exact .ok (h.trans hr hr')
    | stopped hr' hi => exact .stopped (h.trans hr hr') hi
  | stopped hr hi => exact .stopped hr hi

theorem systemCall_leaves (h : s.Admits R) {name : String} {f : SystemFunction}
    (hf : s.env.systems[name]? = some f) (accessor : Accessor) (params : List Value) :
    Leaves R wanted (s.systemCall name f accessor params) := by
  intro σ
  have hr := h.call accessor params σ hf
  unfold systemCall
  simp only [Eval.world, EStateM.run_bind, EStateM.run_get, EStateM.run_pure, EStateM.run_modify]
  generalize f { entity := s.entity, authority := s.authority, accessor, params } σ.world = x at hr
  obtain ⟨r, w⟩ := x
  unfold EvalState.behind SystemReturn.pauses at hr
  dsimp only at hr ⊢
  split
  · next sentinel hd =>
    simp only [hd] at hr
    refine .stopped hr ?_
    cases sentinel <;> rfl
  · next hd =>
    simp only [hd] at hr
    split
    · next he =>
      simp only [he] at hr
      exact .stopped hr trivial
    · next he =>
      split
      · next hc =>
        simp only [he, bne_iff_ne.2 hc] at hr
        exact .ok hr
      · next hc =>
        simp only [ne_eq, Decidable.not_not] at hc
        simp only [hc, he] at hr
        exact .ok hr

theorem invoke_leaves (h : s.Admits R) (target : Option Value) (accessor : Accessor)
    (name : String) (params : List Value) {resume : Option ResumePoint}
    (hr : wanted = true → resume.isSome = true) :
    Leaves R wanted (s.invoke target accessor name params resume) := by
  unfold invoke
  refine h.bind h.world fun w => ?_
  split
  · next q hq =>
    refine fun σ => .stopped (h.refl σ) ?_
    rw [s.functionCall?_resume] at hq
    obtain ⟨x, -, hx⟩ := Option.map_eq_some_iff.1 hq
    cases x with
    | error e => cases hx
    | ok q' =>
      cases hx
      exact hr
  · next e he => exact h.fail (s.functionCall?_operates he e rfl)
  · split
    · next f hf => exact systemCall_leaves h hf accessor params
    · exact h.fail rfl

mutual

theorem eval_leaves (h : s.Admits R) (e : Expr) : Leaves R true (s.eval e) := by
  cases e with
  | arithmetic op es =>
    rw [eval]
    exact evalOperands_leaves h op none es
  | chain ls =>
    rw [eval]
    exact evalChain_leaves h true ls
termination_by 2 * sizeOf e

theorem evalOperands_leaves (h : s.Admits R) (op : ArithmeticOp) (acc : Option Int64)
    (es : List Expr) : Leaves R true (s.evalOperands op acc es) := by
  cases es with
  | nil =>
    cases acc with
    | none =>
      rw [evalOperands]
      exact h.fail rfl
    | some n =>
      rw [evalOperands]
      exact h.pure _
  | cons e es =>
    rw [evalOperands]
    refine h.bind (eval_leaves h e) fun v => ?_
    exact h.bind (h.ofExcept (accumulate_operates _ _ _)) fun n =>
      evalOperands_leaves h op (some n) es
termination_by 2 * sizeOf es

theorem evalChain_leaves (h : s.Admits R) (wanted : Bool) (ls : List Link) :
    Leaves R wanted (s.evalChain wanted ls) := by
  match ls with
  | [] =>
    rw [evalChain]
    exact h.fail rfl
  | .word text :: ls =>
    rw [evalChain]
    refine h.bind h.world fun w => ?_
    exact h.bind (h.ofExcept (s.resolveRoot_operates _ _)) fun x =>
      evalLinks_leaves h wanted x.1 x.2 ls
  | .call name es place :: ls =>
    rw [evalChain]
    · exact evalLinks_leaves h wanted none .none (.call name es place :: ls)
    · simp
  | .malformed text :: ls =>
    rw [evalChain]
    · exact evalLinks_leaves h wanted none .none (.malformed text :: ls)
    · simp
termination_by 2 * sizeOf ls + 1

theorem evalLinks_leaves (h : s.Admits R) (wanted : Bool) (current : Option Value)
    (accessor : Accessor) (ls : List Link) :
    Leaves R wanted (s.evalLinks wanted current accessor ls) := by
  match ls with
  | [] =>
    rw [evalLinks]
    exact h.pure _
  | .word name :: ls =>
    rw [evalLinks]
    refine h.bind h.world fun w => ?_
    exact h.bind (h.ofExcept (readProperty_operates _ _ _)) fun v =>
      evalLinks_leaves h wanted (some v) (.target v) ls
  | .call name es place :: ls =>
    rw [evalLinks]
    refine h.bind (evalArguments_leaves h es).of_wanted fun params => ?_
    refine h.bind (invoke_leaves h _ _ _ _ fun hw => ?_) fun v =>
      evalLinks_leaves h wanted v (.ofValue? v) ls
    simp [resumePoint, hw]
  | .malformed text :: ls =>
    rw [evalLinks]
    exact h.fail rfl
termination_by 2 * sizeOf ls

theorem evalArguments_leaves (h : s.Admits R) (es : List Expr) :
    Leaves R true (s.evalArguments es) := by
  cases es with
  | nil =>
    rw [evalArguments]
    exact h.pure _
  | cons e es =>
    rw [evalArguments]
    exact h.bind (eval_leaves h e) fun v =>
      h.bind (evalArguments_leaves h es) fun vs => h.pure _
termination_by 2 * sizeOf es

end

end Scope

namespace Fiber

open Eval

variable {s : Scope} {R : EvalState → EvalState → Prop}

theorem compareClause_leaves (h : s.Admits R) (c : Clause) : Leaves R true (compareClause s c) :=
  h.bind (Scope.eval_leaves h _) fun _ => h.bind (Scope.eval_leaves h _) fun _ =>
    h.ofExcept (c.op.apply_operates _ _)

theorem foldlM_leaves (h : s.Admits R) (ks : List Clause) (t : Tally) :
    Leaves R true (ks.foldlM (fun t k => return t.add k (← compareClause s k)) t) := by
  induction ks generalizing t with
  | nil => exact h.pure t
  | cons k ks ih =>
    rw [List.foldlM_cons]
    exact h.bind (h.bind (compareClause_leaves h k) fun _ => h.pure _) ih

theorem isSome_value_foldlM {ks : List Clause} {t t' : Tally} {σ σ' : EvalState}
    (h : (ks.foldlM (fun (t : Tally) k => return t.add k (← compareClause s k)) t).run σ =
      .ok t' σ') :
    t'.value.isSome = (t.value.isSome || !ks.isEmpty) := by
  induction ks generalizing t σ with
  | nil =>
    cases h
    simp
  | cons k ks ih =>
    rw [List.foldlM_cons] at h
    obtain ⟨t₁, σ₁, h₁, h⟩ := of_run_bind_ok h
    obtain ⟨b, σ₂, -, h₁⟩ := of_run_bind_ok h₁
    cases h₁
    simp [ih h, Tally.isSome_value_add]

/-- How a statement can end: as an expression does, or because its condition cannot be read. Only
the last call of a bare chain does not want its value. -/
inductive Executed (R : EvalState → EvalState → Prop) (σ : EvalState) (st : Statement) :
    EStateM.Result Interrupt EvalState Fiber → Prop where

  | left {r : EStateM.Result Interrupt EvalState Fiber} : Left R (!(st matches .bare _)) σ r →
      Executed R σ st r

  | unreadable {text : List Char} {e : ScriptError} {σ' : EvalState} : st = .branch text →
      Check.condition text = .error e → R σ σ' → Executed R σ st (.error (.error e) σ')

section Executed

variable {σ σ' : EvalState} {st : Statement}

theorem Executed.of_ok {g : Fiber} (h : Executed R σ st (.ok g σ')) : R σ σ' := by
  cases h with
  | left h =>
    cases h with
    | ok hr => exact hr

theorem Executed.of_error {i : Interrupt} (h : Executed R σ st (.error i σ')) : R σ σ' := by
  cases h with
  | left h =>
    cases h with
    | stopped hr _ => exact hr
  | unreadable _ _ hr => exact hr

end Executed

theorem execute_executed (h : s.Admits R) (f : Fiber) (st : Statement) (σ : EvalState) :
    Executed R σ st ((execute s f st).run σ) := by
  cases st with
  | declare definition =>
    refine .left (h.bind (h.ofExcept (Statement.splitDefinition_operates _)) (fun x => ?_) σ)
    dsimp only
    split
    · exact h.fail rfl
    · exact h.bind (Scope.eval_leaves h _) fun v => h.pure _
  | branch text =>
    have hl := foldlM_leaves h (Condition.parse text).clauses {} σ
    rw [execute, Condition.evaluate, bind_assoc, EStateM.run_bind]
    generalize hfold : EStateM.run (List.foldlM _ _ _ : Eval Tally) σ = r at hl
    cases hl with
    | @ok t σ' hr =>
      dsimp only
      rw [pure_bind]
      cases hc : (Condition.parse text).conclude t with
      | ok taken => exact .left (.ok hr)
      | error e =>
        have hv := isSome_value_foldlM hfold
        exact .unreadable rfl (Check.condition_of_conclude hv hc) hr
    | stopped hr hi => exact .left (.stopped hr hi)
  | assign target value =>
    refine .left ?_
    simp only [execute]
    split_ifs
    · exact h.fail rfl σ
    · exact h.fail rfl σ
    · exact h.bind (Scope.eval_leaves h _) (fun v => h.pure _) σ
  | bare chain => exact .left (h.bind (Scope.evalChain_leaves h false _) (fun v => h.pure f) σ)
  | blank | close | otherwise => exact .left (h.pure f σ)

theorem execute_stops (s : Scope) (f : Fiber) (st : Statement) :
    Stops (!(st matches .bare _)) (execute s f st) := by
  intro σ i σ' hx
  have hl := execute_executed s.admits_all f st σ
  rw [hx] at hl
  cases hl with
  | left hl =>
    cases hl with
    | stopped _ hi => exact hi.expected
  | unreadable _ hc _ =>
    obtain ⟨t, -, ht⟩ := Check.exists_tally _
    exact Condition.conclude_evaluates _ _ _ (ht ▸ hc)

/-- A statement fails for a condition only as the check of that condition does. -/
theorem execute_condition {s : Scope} {f : Fiber} {st : Statement} {σ σ' : EvalState}
    {e : ScriptError} (h : (execute s f st).run σ = .error (.error e) σ')
    (he : e.isCondition = true) : ∃ text, st = .branch text ∧ Check.condition text = .error e := by
  have hl := execute_executed s.admits_all f st σ
  rw [h] at hl
  cases hl with
  | left hl =>
    cases hl with
    | stopped _ hi =>
      have hn : e.isCondition = false := by simpa using (Bool.and_eq_true_iff.1 hi).2
      simp [hn] at he
  | unreadable hst hc _ => exact ⟨_, hst, hc⟩

end Fiber

end TileScript
