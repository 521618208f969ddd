import TileScript.Proofs.Order

/-! # Traces of a line

A line is evaluated once more, and the calls of system functions that are made are noted with their
places. The notes tell all that the line does to the world, and they follow the calls as they are
written.
-/

namespace TileScript

open Text Chain

/-- A call of a system function that was made. -/
structure Effect extends WrittenCall where
  call : SystemCall
  deriving DecidableEq, Repr

/-- The world behind an effect. -/
def Effect.apply (systems : SystemTable) (w : World) (e : Effect) : World :=
  match systems[e.name]? with
  | some f => (f e.call w).2
  | none => w

structure Traced where
  state : EvalState
  effects : List Effect := []

abbrev Tracing := EStateM Interrupt Traced

/-- Evaluates something that needs no notes. -/
def Tracing.lift {α : Type} (x : Eval α) : Tracing α := fun τ =>
  match x τ.state with
  | .ok a σ => .ok a { τ with state := σ }
  | .error i σ => .error i { τ with state := σ }

section Evaluation

namespace Scope

/-- The effect of a call that calls a system function. -/
def effect (s : Scope) (accessor : Accessor) (name : String) (params : List Value)
    (place : List Char) : Effect where
  place
  name
  call := { entity := s.entity, authority := s.authority, accessor, params }

/-- What there is to note of a call. -/
def effects (s : Scope) (w : World) (target : Option Value) (accessor : Accessor) (name : String)
    (params : List Value) (place : List Char) : List Effect :=
  if (s.functionCall? w target name params none).isNone && s.env.systems[name]?.isSome then
    [s.effect accessor name params place]
  else []

/-- Runs a call, and notes it if it is one of a system function. -/
def traceInvoke (s : Scope) (target : Option Value) (accessor : Accessor) (name : String)
    (params : List Value) (wanted : Bool) (place : List Char) : Tracing (Option Value) := do
  modify fun τ => { τ with
    effects := τ.effects ++ s.effects τ.state.world target accessor name params place }
  Tracing.lift (s.invoke target accessor name params (s.resumePoint wanted place))

mutual

def traceEval (s : Scope) : Expr → Tracing Value
  | .arithmetic op operands => traceOperands s op none operands
  | .chain links => traceChain s true links
termination_by e => 2 * sizeOf e

def traceOperands (s : Scope) (op : ArithmeticOp) (acc : Option Int64) : List Expr → Tracing Value
  | [] => Tracing.lift (s.evalOperands op acc [])
  | e :: es => do
    let v ← traceEval s e
    let n ← Tracing.lift (Eval.ofExcept (accumulate op acc v))
    traceOperands s op (some n) es
termination_by es => 2 * sizeOf es

def traceChain (s : Scope) (wanted : Bool) : List Link → Tracing Value
  | [] => Tracing.lift (Eval.fail .emptyExpression)
  | .word text :: rest => do
    let w ← Tracing.lift Eval.world
    let (current, accessor) ← Tracing.lift (Eval.ofExcept (s.resolveRoot w text))
    traceLinks s wanted current accessor rest
  | link :: rest => traceLinks s wanted none .none (link :: rest)
termination_by links => 2 * sizeOf links + 1

def traceLinks (s : Scope) (wanted : Bool) (current : Option Value) (accessor : Accessor) :
    List Link → Tracing Value
  | [] => pure (current.getD default)
  | .word name :: rest => do
    let w ← Tracing.lift Eval.world
    let v ← Tracing.lift (Eval.ofExcept (readProperty w current name))
    traceLinks s wanted (some v) (.target v) rest
  | .call name arguments place :: rest => do
    let params ← traceArguments s arguments
    let v ← s.traceInvoke current accessor name params (wanted || !rest.isEmpty) place
    traceLinks s wanted v (.ofValue? v) rest
  | .malformed text :: _ => Tracing.lift (Eval.fail (.malformedCall (String.ofList text)))
termination_by links => 2 * sizeOf links

def traceArguments (s : Scope) : List Expr → Tracing (List Value)
  | [] => pure []
  | e :: es => do
    let v ← traceEval s e
    let vs ← traceArguments s es
    return v :: vs
termination_by es => 2 * sizeOf es

end

end Scope

namespace Fiber

def traceCompare (s : Scope) (k : Clause × Span × Span) : Tracing Bool := do
  let a ← s.traceEval (.ofSpan k.2.1)
  let b ← s.traceEval (.ofSpan k.2.2)
  Tracing.lift (Eval.ofExcept (k.1.op.apply a b))

/-- Evaluates the line of a scope as `executeAt` does, with notes. -/
def trace (s : Scope) (f : Fiber) : Tracing Fiber :=
  let line := Span.trim ⟨[], s.line⟩
  match Statement.ofLine s.line with
  | .declare definition => do
    let (name, value) ← Tracing.lift (Eval.ofExcept (Statement.splitDefinition definition))
    let name := String.ofList name
    if f.vars.contains name then Tracing.lift (Eval.fail (.variableDefined name))
    else
      let v ← s.traceEval (.ofSpan (line.suffix value))
      return { f with vars := f.vars.insert name v }
  | .branch condition => do
    let t ← (Condition.clauseSpans none (wordSpans (line.suffix condition))).foldlM
      (fun t k => return t.add k.1 (← traceCompare s k)) {}
    let taken := (Condition.parse condition).conclude t
    return { f with cursor := f.cursor.enter (← Tracing.lift (Eval.ofExcept taken)) }
  | .assign target value => do
    let name := String.ofList target
    if !Chain.isIdentifier target then Tracing.lift (Eval.fail .invalidVariable)
    else if !f.vars.contains name then Tracing.lift (Eval.fail (.variableNotDefined name))
    else
      let v ← s.traceEval (.ofSpan (line.suffix value))
      return { f with vars := f.vars.insert name v }
  | .bare _ => do
    let _ ← s.traceChain false (Link.ofSpan line)
    return f
  | .blank | .close | .otherwise => return f

end Fiber

end Evaluation

section Records

variable (systems : SystemTable)

/-- The effects `new` lead from `τ` to `τ'`. -/
structure Traced.Adds (τ τ' : Traced) (new : List Effect) : Prop where
  effects : τ'.effects = τ.effects ++ new
  world : τ'.state.world = new.foldl (Effect.apply systems) τ.state.world

/-- What came of an evaluation with notes and of one without. The calls that were to be made have
been made and noted, unless something stopped the evaluation. A call that stopped it for a value is
the next one. -/
inductive Tracing.Recorded {α : Type} (τ : Traced) (calls : List WrittenCall) :
    EStateM.Result Interrupt Traced α → EStateM.Result Interrupt EvalState α → Prop where

  | ok {a : α} {τ' : Traced} {new : List Effect} : τ.Adds systems τ' new →
      calls = new.map Effect.toWrittenCall → Recorded τ calls (.ok a τ') (.ok a τ'.state)

  | stopped {i : Interrupt} {τ' : Traced} {new : List Effect} {rest : List WrittenCall} :
      τ.Adds systems τ' new → calls = new.map Effect.toWrittenCall ++ rest →
      (∀ q p, i = .call q → q.resume = some p → ∃ c, rest.head? = some c ∧ c.place = p.statement) →
      Recorded τ calls (.error i τ') (.error i τ'.state)

/-- `x` evaluates as `y` does, and notes the given calls. -/
def Tracing.Records {α : Type} (calls : List WrittenCall) (x : Tracing α) (y : Eval α) : Prop :=
  ∀ τ, Recorded systems τ calls (x.run τ) (y.run τ.state)

end Records

namespace Tracing

variable {systems : SystemTable} {calls calls' : List WrittenCall} {α β : Type} {x : Tracing α}
  {y : Eval α} {f : α → Tracing β} {g : α → Eval β}

theorem adds_nil (τ : Traced) (σ : EvalState) (h : σ.world = τ.state.world) :
    τ.Adds systems { τ with state := σ } [] where
  effects := by simp
  world := h

theorem adds_append {τ τ₁ τ₂ : Traced} {new new' : List Effect} (h : τ.Adds systems τ₁ new)
    (h' : τ₁.Adds systems τ₂ new') : τ.Adds systems τ₂ (new ++ new') where
  effects := by rw [h'.effects, h.effects, List.append_assoc]
  world := by rw [h'.world, h.world, List.foldl_append]

theorem run_lift (y : Eval α) (τ : Traced) :
    (lift y).run τ = match y.run τ.state with
      | .ok a σ => .ok a { τ with state := σ }
      | .error i σ => .error i { τ with state := σ } := rfl

theorem lift_ok (a : α) : lift (Eval.ofExcept (.ok a)) = Pure.pure a := rfl

theorem Records.pure (a : α) : Records systems [] (Pure.pure a) (Pure.pure a) :=
  fun τ => .ok (adds_nil τ τ.state rfl) rfl

theorem Records.fail (calls : List WrittenCall) (e : ScriptError) :
    Records systems calls (lift (Eval.fail e : Eval α)) (Eval.fail e) :=
  fun τ => .stopped (adds_nil τ τ.state rfl) rfl fun _ _ h => by cases h

theorem Records.ofExcept (e : Except ScriptError α) :
    Records systems [] (lift (Eval.ofExcept e)) (Eval.ofExcept e) := by
  cases e with
  | ok a => exact .pure a
  | error e => exact .fail [] e

theorem Records.world : Records systems [] (lift Eval.world) Eval.world :=
  fun τ => .ok (adds_nil τ τ.state rfl) rfl

theorem Records.bind (hx : Records systems calls x y)
    (hf : ∀ a, Records systems calls' (f a) (g a)) :
    Records systems (calls ++ calls') (x >>= f) (y >>= g) := by
  intro τ
  have h := hx τ
  rw [EStateM.run_bind, EStateM.run_bind]
  generalize x.run τ = r at h
  generalize y.run τ.state = r' at h
  cases h with
  | @ok a τ₁ new ha hc =>
    have h' := hf a τ₁
    dsimp only
    generalize (f a).run τ₁ = t at h'
    generalize (g a).run τ₁.state = t' at h'
    cases h' with
    | ok ha' hc' => exact .ok (adds_append ha ha') (by rw [hc, hc', List.map_append])
    | stopped ha' hc' hq =>
      exact .stopped (adds_append ha ha') (by rw [hc, hc', List.map_append, List.append_assoc]) hq
  | @stopped i τ₁ new rest ha hc hq =>
    have hrest : calls ++ calls' = new.map Effect.toWrittenCall ++ (rest ++ calls') := by
      rw [hc, List.append_assoc]
    refine .stopped ha hrest fun q p hi hp => ?_
    obtain ⟨c, hh, hc⟩ := hq q p hi hp
    exact ⟨c, by rw [List.head?_append, hh]; rfl, hc⟩

/-- What notes nothing can follow. -/
theorem Records.bind_quiet (hx : Records systems calls x y)
    (hf : ∀ a, Records systems [] (f a) (g a)) :
    Records systems calls (x >>= f) (y >>= g) := by
  simpa using hx.bind hf

end Tracing

namespace Scope

variable (s : Scope)

/-- A system function does what it does to the world, whatever comes of its call. -/
theorem systemCall_world (σ : EvalState) (name : String) (f : SystemFunction) (accessor : Accessor)
    (params : List Value) :
    (∃ v σ', (s.systemCall name f accessor params).run σ = .ok v σ' ∧
      σ'.world = (f ⟨s.entity, s.authority, accessor, params⟩ σ.world).2) ∨
    ∃ i σ', (s.systemCall name f accessor params).run σ = .error i σ' ∧
      σ'.world = (f ⟨s.entity, s.authority, accessor, params⟩ σ.world).2 ∧ ∀ q, i ≠ .call q := by
  unfold systemCall Eval.world
  simp only [EStateM.run_bind, EStateM.run_get, EStateM.run_pure, EStateM.run_modify]
  split
  · exact .inr ⟨_, _, rfl, rfl, by simp⟩
  · split
    · exact .inr ⟨_, _, rfl, rfl, by simp⟩
    · split
      · exact .inl ⟨_, _, rfl, rfl⟩
      · exact .inl ⟨_, _, rfl, rfl⟩

theorem invoke_records (target : Option Value) (accessor : Accessor) (name : String)
    (params : List Value) (wanted : Bool) (place : List Char) :
    Tracing.Records s.env.systems [⟨place, name⟩]
      (s.traceInvoke target accessor name params wanted place)
      (s.invoke target accessor name params (s.resumePoint wanted place)) := by
  intro τ
  have hrun : (s.traceInvoke target accessor name params wanted place).run τ =
      (Tracing.lift (s.invoke target accessor name params (s.resumePoint wanted place))).run
        { τ with effects :=
            τ.effects ++ s.effects τ.state.world target accessor name params place } := rfl
  rw [hrun, Tracing.run_lift]
  unfold invoke
  rw [EStateM.run_bind, Eval.run_world]
  dsimp only
  rw [s.functionCall?_resume]
  cases hq : s.functionCall? τ.state.world target name params none with
  | some x =>
    -- a function of the target stops the line, so there is nothing to note
    have hnone : s.effects τ.state.world target accessor name params place = [] := by
      simp [effects, hq]
    rw [hnone, List.append_nil]
    cases x with
    | error e => exact Tracing.Records.fail [⟨place, name⟩] e τ
    | ok q =>
      refine .stopped (Tracing.adds_nil τ τ.state rfl) rfl fun q' p hi hp => ?_
      cases hi
      refine ⟨_, rfl, ?_⟩
      cases wanted with
      | false => cases hp
      | true =>
        cases hp
        rfl
  | none =>
    cases hf : s.env.systems[name]? with
    | none =>
      have hnone : s.effects τ.state.world target accessor name params place = [] := by
        simp [effects, hf]
      rw [hnone, List.append_nil]
      exact Tracing.Records.fail [⟨place, name⟩] _ τ
    | some f =>
      have hsome : s.effects τ.state.world target accessor name params place =
          [s.effect accessor name params place] := by
        simp [effects, hq, hf]
      rw [hsome]
      have hadds {σ : EvalState}
          (h : σ.world = (f ⟨s.entity, s.authority, accessor, params⟩ τ.state.world).2) :
          τ.Adds s.env.systems ⟨σ, τ.effects ++ [s.effect accessor name params place]⟩
            [s.effect accessor name params place] :=
        ⟨rfl, by simp [Effect.apply, effect, hf, h]⟩
      dsimp only [Option.map_none]
      obtain ⟨v, σ', hx, hw⟩ | ⟨i, σ', hx, hw, hi⟩ :=
        s.systemCall_world τ.state name f accessor params
      · rw [hx]
        exact .ok (hadds hw) rfl
      · rw [hx]
        exact .stopped (hadds hw) (List.append_nil _).symm fun q p hq => absurd hq (hi q)

mutual

theorem eval_records (e : Expr) :
    Tracing.Records s.env.systems e.written (s.traceEval e) (s.eval e) := by
  cases e with
  | arithmetic op es =>
    rw [traceEval, eval, Expr.written]
    exact evalOperands_records op none es
  | chain ls =>
    rw [traceEval, eval, Expr.written]
    exact evalChain_records true ls
termination_by 2 * sizeOf e

theorem evalOperands_records (op : ArithmeticOp) (acc : Option Int64) (es : List Expr) :
    Tracing.Records s.env.systems (Expr.writtenIn es) (s.traceOperands op acc es)
      (s.evalOperands op acc es) := by
  cases es with
  | nil =>
    rw [traceOperands, Expr.writtenIn]
    cases acc with
    | none =>
      rw [evalOperands]
      exact .fail [] _
    | some n =>
      rw [evalOperands]
      exact .pure _
  | cons e es =>
    rw [traceOperands, evalOperands, Expr.writtenIn]
    exact (eval_records e).bind fun v => (Tracing.Records.ofExcept _).bind fun n =>
      evalOperands_records op (some n) es
termination_by 2 * sizeOf es

theorem evalChain_records (wanted : Bool) (ls : List Link) :
    Tracing.Records s.env.systems (Link.writtenIn ls) (s.traceChain wanted ls)
      (s.evalChain wanted ls) := by
  match ls with
  | [] =>
    rw [traceChain, evalChain]
    exact .fail _ _
  | .word text :: ls =>
    rw [traceChain, evalChain, Link.writtenIn]
    exact Tracing.Records.world.bind fun w => (Tracing.Records.ofExcept _).bind fun x =>
      evalLinks_records wanted x.1 x.2 ls
  | .call name es place :: ls =>
    rw [traceChain, evalChain]
    · exact evalLinks_records wanted none .none (.call name es place :: ls)
    all_goals simp
  | .malformed text :: ls =>
    rw [traceChain, evalChain]
    · exact evalLinks_records wanted none .none (.malformed text :: ls)
    all_goals simp
termination_by 2 * sizeOf ls + 1

theorem evalLinks_records (wanted : Bool) (current : Option Value) (accessor : Accessor)
    (ls : List Link) :
    Tracing.Records s.env.systems (Link.writtenIn ls) (s.traceLinks wanted current accessor ls)
      (s.evalLinks wanted current accessor ls) := by
  match ls with
  | [] =>
    rw [traceLinks, evalLinks, Link.writtenIn]
    exact .pure _
  | .word name :: ls =>
    rw [traceLinks, evalLinks, Link.writtenIn]
    exact Tracing.Records.world.bind fun w => (Tracing.Records.ofExcept _).bind fun v =>
      evalLinks_records wanted (some v) (.target v) ls
  | .call name es place :: ls =>
    rw [traceLinks, evalLinks, Link.writtenIn]
    exact (evalArguments_records es).bind fun params => (invoke_records s _ _ _ _ _ _).bind fun v =>
      evalLinks_records wanted v (.ofValue? v) ls
  | .malformed text :: ls =>
    rw [traceLinks, evalLinks]
    exact .fail _ _
termination_by 2 * sizeOf ls

theorem evalArguments_records (es : List Expr) :
    Tracing.Records s.env.systems (Expr.writtenIn es) (s.traceArguments es)
      (s.evalArguments es) := by
  cases es with
  | nil =>
    rw [traceArguments, evalArguments, Expr.writtenIn]
    exact .pure _
  | cons e es =>
    rw [traceArguments, evalArguments, Expr.writtenIn]
    exact (eval_records e).bind fun v => (evalArguments_records es).bind_quiet fun vs => .pure _
termination_by 2 * sizeOf es

end

end Scope

namespace Fiber

variable (s : Scope) (f : Fiber)

theorem compare_records (k : Clause × Span × Span) :
    Tracing.Records s.env.systems ((Expr.ofSpan k.2.1).written ++ (Expr.ofSpan k.2.2).written)
      (traceCompare s k) (compareAt s k) := by
  unfold traceCompare compareAt
  exact (s.eval_records _).bind fun a => (s.eval_records _).bind_quiet fun b => .ofExcept _

theorem foldlM_records (ks : List (Clause × Span × Span)) (t : Tally) :
    Tracing.Records s.env.systems
      ((Condition.operands ks).flatMap fun q => (Expr.ofSpan q).written)
      (ks.foldlM (fun t k => return t.add k.1 (← traceCompare s k)) t)
      (ks.foldlM (fun t k => return t.add k.1 (← compareAt s k)) t) := by
  induction ks generalizing t with
  | nil => exact .pure t
  | cons k ks ih =>
    rw [List.foldlM_cons, List.foldlM_cons, Condition.operands, List.flatMap_cons,
      List.flatMap_append]
    refine Tracing.Records.bind ?_ ih
    have h := (compare_records s k).bind_quiet fun b => Tracing.Records.pure (t.add k.1 b)
    simpa using h

/-- The notes of a line follow the calls that are written on it. -/
theorem execute_records :
    Tracing.Records s.env.systems (Statement.written s.line) (trace s f) (executeAt s f) := by
  unfold Statement.written trace executeAt
  cases Statement.ofLine s.line with
  | blank | close | otherwise => exact .pure f
  | declare d =>
    dsimp only
    cases Statement.splitDefinition d with
    | error e => exact .fail [] e
    | ok x =>
      obtain ⟨name, value⟩ := x
      rw [Tracing.lift_ok, show Eval.ofExcept (.ok (name, value)) = pure (name, value) from rfl,
        pure_bind, pure_bind]
      dsimp only
      split
      · exact .fail _ _
      · exact (s.eval_records _).bind_quiet fun v => .pure _
  | branch c =>
    exact (foldlM_records s _ {}).bind_quiet fun t =>
      (Tracing.Records.ofExcept _).bind_quiet fun taken => .pure _
  | assign target value =>
    dsimp only
    split
    · exact .fail _ _
    · split
      · exact .fail _ _
      · exact (s.eval_records _).bind_quiet fun v => .pure _
  | bare c => exact (s.evalChain_records false _).bind_quiet fun v => .pure f

end Fiber

end TileScript
