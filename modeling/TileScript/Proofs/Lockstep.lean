import TileScript.Fiber.Evaluate

/-! # Evaluation in lockstep

Two trees of the same shape are evaluated in the same way, whatever their calls say of their texts:
the results are equal, and when a call interrupts one, the corresponding call interrupts the other.
-/

namespace TileScript

variable (R : List Char → List Char → Prop)

mutual

/-- Trees of one shape, whose calls have related texts. -/
inductive Expr.Alike : Expr → Expr → Prop where

  | arithmetic {op : ArithmeticOp} {es es' : List Expr} : Expr.AllAlike es es' →
      Expr.Alike (.arithmetic op es) (.arithmetic op es')

  | chain {ls ls' : List Link} : Link.AllAlike ls ls' → Expr.Alike (.chain ls) (.chain ls')

inductive Expr.AllAlike : List Expr → List Expr → Prop where

  | nil : Expr.AllAlike [] []

  | cons {e e' : Expr} {es es' : List Expr} : Expr.Alike e e' → Expr.AllAlike es es' →
      Expr.AllAlike (e :: es) (e' :: es')

inductive Link.AllAlike : List Link → List Link → Prop where

  | nil : Link.AllAlike [] []

  | word {t : List Char} {ls ls' : List Link} : Link.AllAlike ls ls' →
      Link.AllAlike (.word t :: ls) (.word t :: ls')

  | call {name : String} {es es' : List Expr} {r r' : List Char} {ls ls' : List Link} :
      Expr.AllAlike es es' → R r r' → Link.AllAlike ls ls' →
      Link.AllAlike (.call name es r :: ls) (.call name es' r' :: ls')

  | malformed {t : List Char} {ls ls' : List Link} : Link.AllAlike ls ls' →
      Link.AllAlike (.malformed t :: ls) (.malformed t :: ls')

end

section Alike

variable {R} {S : List Char → List Char → Prop}

mutual

theorem Expr.Alike.mono (hR : ∀ r r', R r r' → S r r') {e e' : Expr} (h : Expr.Alike R e e') :
    Expr.Alike S e e' := by
  cases h with
  | arithmetic h => exact .arithmetic (Expr.AllAlike.mono hR h)
  | chain h => exact .chain (Link.AllAlike.mono hR h)

theorem Expr.AllAlike.mono (hR : ∀ r r', R r r' → S r r') {es es' : List Expr}
    (h : Expr.AllAlike R es es') : Expr.AllAlike S es es' := by
  cases h with
  | nil => exact .nil
  | cons he hes => exact .cons (Expr.Alike.mono hR he) (Expr.AllAlike.mono hR hes)

theorem Link.AllAlike.mono (hR : ∀ r r', R r r' → S r r') {ls ls' : List Link}
    (h : Link.AllAlike R ls ls') : Link.AllAlike S ls ls' := by
  cases h with
  | nil => exact .nil
  | word h => exact .word (Link.AllAlike.mono hR h)
  | call hes hr h => exact .call (Expr.AllAlike.mono hR hes) (hR _ _ hr) (Link.AllAlike.mono hR h)
  | malformed h => exact .malformed (Link.AllAlike.mono hR h)

end

mutual

theorem Expr.Alike.refl (hR : ∀ r, R r r) (e : Expr) : Expr.Alike R e e := by
  cases e with
  | arithmetic op es => exact .arithmetic (Expr.AllAlike.refl hR es)
  | chain ls => exact .chain (Link.AllAlike.refl hR ls)

theorem Expr.AllAlike.refl (hR : ∀ r, R r r) (es : List Expr) : Expr.AllAlike R es es := by
  cases es with
  | nil => exact .nil
  | cons e es => exact .cons (Expr.Alike.refl hR e) (Expr.AllAlike.refl hR es)

theorem Link.AllAlike.refl (hR : ∀ r, R r r) (ls : List Link) : Link.AllAlike R ls ls := by
  match ls with
  | [] => exact .nil
  | .word t :: ls => exact .word (Link.AllAlike.refl hR ls)
  | .call name es r :: ls =>
    exact .call (Expr.AllAlike.refl hR es) (hR r) (Link.AllAlike.refl hR ls)
  | .malformed t :: ls => exact .malformed (Link.AllAlike.refl hR ls)

end

theorem Expr.AllAlike.map {α : Type} {f g : α → Expr} {xs : List α}
    (h : ∀ x ∈ xs, Expr.Alike R (f x) (g x)) : Expr.AllAlike R (xs.map f) (xs.map g) := by
  induction xs with
  | nil => exact .nil
  | cons x xs ih =>
    exact .cons (h x List.mem_cons_self) (ih fun y hy => h y (List.mem_cons_of_mem x hy))

theorem Link.AllAlike.append {ls ls' ms ms' : List Link} (h : Link.AllAlike R ls ls')
    (hm : Link.AllAlike R ms ms') : Link.AllAlike R (ls ++ ms) (ls' ++ ms') := by
  match h with
  | .nil => exact hm
  | .word h => exact .word (h.append hm)
  | .call hes hr h => exact .call hes hr (h.append hm)
  | .malformed h => exact .malformed (h.append hm)

theorem Link.AllAlike.map {α : Type} {f g : α → Link} {xs : List α}
    (h : ∀ x ∈ xs, Link.AllAlike R [f x] [g x]) : Link.AllAlike R (xs.map f) (xs.map g) := by
  induction xs with
  | nil => exact .nil
  | cons x xs ih =>
    exact (h x List.mem_cons_self).append (ih fun y hy => h y (List.mem_cons_of_mem x hy))

theorem Link.AllAlike.isEmpty_eq {ls ls' : List Link} (h : Link.AllAlike R ls ls') :
    ls.isEmpty = ls'.isEmpty := by
  cases h <;> rfl

end Alike

/-- Equal results, up to the text of a call on `line` whose value is wanted. -/
inductive Eval.ResultAlike (line : List Char) {α : Type} :
    EStateM.Result Interrupt EvalState α → EStateM.Result Interrupt EvalState α → Prop where

  | same {x : EStateM.Result Interrupt EvalState α} :
      (∀ q σ, x = .error (.call q) σ → q.resume = none) → Eval.ResultAlike line x x

  | call {q : CallRequest} {r r' : List Char} {σ : EvalState} : q.resume = some ⟨line, r⟩ →
      R r r' → Eval.ResultAlike line (.error (.call q) σ)
        (.error (.call { q with resume := some ⟨line, r'⟩ }) σ)

namespace Eval

theorem run_world (σ : EvalState) : Eval.world.run σ = .ok σ.world σ := rfl

def Alike (line : List Char) {α : Type} (x y : Eval α) : Prop :=
  ∀ σ, ResultAlike R line (x.run σ) (y.run σ)

variable {R} {line : List Char} {α β : Type} {x y : Eval α} {f g : α → Eval β}

theorem Alike.pure (a : α) : Alike R line (Pure.pure a) (Pure.pure a) :=
  fun _ => .same fun _ _ h => by cases h

theorem Alike.fail (e : ScriptError) : Alike R line (Eval.fail e : Eval α) (Eval.fail e) :=
  fun _ => .same fun _ _ h => by cases h

theorem Alike.ofExcept (e : Except ScriptError α) :
    Alike R line (Eval.ofExcept e) (Eval.ofExcept e) := by
  cases e with
  | ok a => exact .pure a
  | error e => exact .fail e

theorem Alike.exit (v : Option Value) :
    Alike R line (throw (.exit v) : Eval α) (throw (.exit v)) :=
  fun _ => .same fun _ _ h => by cases h

theorem Alike.modify (f : EvalState → EvalState) :
    Alike R line (modify f : Eval Unit) (modify f) := fun _ => .same fun _ _ h => by cases h

theorem Alike.world : Alike R line Eval.world Eval.world := fun _ => .same fun _ _ h => by cases h

theorem Alike.bind (hx : Alike R line x y) (hf : ∀ a, Alike R line (f a) (g a)) :
    Alike R line (x >>= f) (y >>= g) := by
  intro σ
  have h := hx σ
  rw [EStateM.run_bind, EStateM.run_bind]
  generalize x.run σ = a at h
  generalize y.run σ = b at h
  cases h with
  | same hn =>
    cases a with
    | ok a σ' => exact hf a σ'
    | error i σ' => exact .same fun q τ h => hn q τ (by cases h; rfl)
  | call hq hr => exact .call hq hr

end Eval

namespace Scope

variable {R} (s : Scope)

theorem systemCall_alike (name : String) (f : SystemFunction) (accessor : Accessor)
    (params : List Value) :
    Eval.Alike R s.line (s.systemCall name f accessor params)
      (s.systemCall name f accessor params) := by
  unfold systemCall
  refine Eval.Alike.world.bind fun w => ?_
  dsimp only
  refine (Eval.Alike.modify _).bind fun _ => ?_
  split
  · exact .fail _
  · split
    · exact .exit _
    · split
      · exact (Eval.Alike.modify _).bind fun _ => .pure _
      · exact .pure _

theorem entityCall_resume (w : World) (id : EntityId) (f : FunctionDescriptor)
    (params : List Value) (resume : Option ResumePoint) :
    s.entityCall w id f params resume =
      (s.entityCall w id f params none).map fun q => { q with resume } := by
  unfold entityCall
  cases checkArity f params.length with
  | error e => rfl
  | ok u =>
    cases existingEntity w s.entity with
    | error e => rfl
    | ok caller =>
      cases existingEntity w id with
      | error e => rfl
      | ok callee =>
        simp only [bind, Except.bind]
        split
        · rfl
        · split <;> rfl

theorem itemCall_resume (w : World) (id : ItemId) (f : FunctionDescriptor)
    (params : List Value) (resume : Option ResumePoint) :
    s.itemCall w id f params resume =
      (s.itemCall w id f params none).map fun q => { q with resume } := by
  unfold itemCall
  cases checkArity f params.length with
  | error e => rfl
  | ok u =>
    cases existingEntity w s.entity with
    | error e => rfl
    | ok caller =>
      simp only [bind, Except.bind]
      split <;> rfl

/-- A call does not depend on where its caller goes on. -/
theorem functionCall?_resume (w : World) (target : Option Value) (name : String)
    (params : List Value) (resume : Option ResumePoint) :
    s.functionCall? w target name params resume =
      (s.functionCall? w target name params none).map (·.map fun q => { q with resume }) := by
  unfold functionCall?
  split
  · rw [Option.map_map]
    congr 1
    funext f
    exact s.entityCall_resume ..
  · rw [Option.map_map]
    congr 1
    funext f
    exact s.itemCall_resume ..
  · rfl

theorem invoke_alike {r r' : List Char} (hr : R r r') (target : Option Value) (accessor : Accessor)
    (name : String) (params : List Value) (wanted : Bool) :
    Eval.Alike R s.line (s.invoke target accessor name params (s.resumePoint wanted r))
      (s.invoke target accessor name params (s.resumePoint wanted r')) := by
  unfold invoke
  refine Eval.Alike.world.bind fun w => ?_
  rw [s.functionCall?_resume w target name params (s.resumePoint wanted r),
    s.functionCall?_resume w target name params (s.resumePoint wanted r')]
  cases s.functionCall? w target name params none with
  | none =>
    dsimp only [Option.map_none]
    split
    · exact s.systemCall_alike _ _ _ _
    · exact .fail _
  | some x =>
    cases x with
    | error e => exact .fail e
    | ok q =>
      intro σ
      cases wanted with
      | true => exact .call rfl hr
      | false =>
        refine .same fun q' τ h => ?_
        cases h
        rfl

mutual

theorem eval_alike {e e' : Expr} (h : Expr.Alike R e e') :
    Eval.Alike R s.line (s.eval e) (s.eval e') := by
  cases h with
  | arithmetic h =>
    rw [eval, eval]
    exact evalOperands_alike _ _ h
  | chain h =>
    rw [eval, eval]
    exact evalChain_alike _ h
termination_by 2 * sizeOf e

theorem evalOperands_alike (op : ArithmeticOp) (acc : Option Int64) {es es' : List Expr}
    (h : Expr.AllAlike R es es') :
    Eval.Alike R s.line (s.evalOperands op acc es) (s.evalOperands op acc es') := by
  cases h with
  | nil =>
    cases acc with
    | none =>
      rw [evalOperands]
      exact .fail _
    | some n =>
      rw [evalOperands]
      exact .pure _
  | cons he hes =>
    rw [evalOperands, evalOperands]
    exact (eval_alike he).bind fun v => (Eval.Alike.ofExcept _).bind fun n =>
      evalOperands_alike op (some n) hes
termination_by 2 * sizeOf es

theorem evalChain_alike (wanted : Bool) {ls ls' : List Link} (h : Link.AllAlike R ls ls') :
    Eval.Alike R s.line (s.evalChain wanted ls) (s.evalChain wanted ls') := by
  cases h with
  | nil =>
    rw [evalChain]
    exact .fail _
  | word h =>
    rw [evalChain, evalChain]
    exact Eval.Alike.world.bind fun w => (Eval.Alike.ofExcept _).bind fun x =>
      evalLinks_alike wanted x.1 x.2 h
  | call hes hr h =>
    rw [evalChain, evalChain]
    · exact evalLinks_alike wanted none .none (.call hes hr h)
    · simp
    · simp
  | malformed h =>
    rw [evalChain, evalChain]
    · exact evalLinks_alike wanted none .none (.malformed h)
    · simp
    · simp
termination_by 2 * sizeOf ls + 1

theorem evalLinks_alike (wanted : Bool) (current : Option Value) (accessor : Accessor)
    {ls ls' : List Link} (h : Link.AllAlike R ls ls') :
    Eval.Alike R s.line (s.evalLinks wanted current accessor ls)
      (s.evalLinks wanted current accessor ls') := by
  cases h with
  | nil =>
    rw [evalLinks]
    exact .pure _
  | word h =>
    rw [evalLinks, evalLinks]
    exact Eval.Alike.world.bind fun w => (Eval.Alike.ofExcept _).bind fun v =>
      evalLinks_alike wanted (some v) (.target v) h
  | call hes hr h =>
    rw [evalLinks, evalLinks, h.isEmpty_eq]
    exact (evalArguments_alike hes).bind fun params => (invoke_alike s hr _ _ _ _ _).bind fun v =>
      evalLinks_alike wanted v (.ofValue? v) h
  | malformed h =>
    rw [evalLinks, evalLinks]
    exact .fail _
termination_by 2 * sizeOf ls

theorem evalArguments_alike {es es' : List Expr} (h : Expr.AllAlike R es es') :
    Eval.Alike R s.line (s.evalArguments es) (s.evalArguments es') := by
  cases h with
  | nil =>
    rw [evalArguments]
    exact .pure _
  | cons he hes =>
    rw [evalArguments, evalArguments]
    exact (eval_alike he).bind fun v => (evalArguments_alike hes).bind fun vs => .pure _
termination_by 2 * sizeOf es

end

end Scope

end TileScript
