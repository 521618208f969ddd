import Mathlib.Tactic.SplitIfs
import TileScript.Fiber.Activate
import TileScript.Proofs.Exchange
import TileScript.Proofs.Requests

/-! # The calls of a line

The names of the calls in a tree, and in the trees of a statement. What a statement does is all in
its calls by these names: if they come to the same in two scopes and keep the worlds related, so
does the statement. A call on `_` is among them only for scripts with full authority. In particular
a statement runs the same in two scopes that agree on these names, so it calls no function by
another one.
-/

namespace TileScript

mutual

/-- The names of the calls in a tree, from left to right. -/
def Expr.calls : Expr → List String
  | .arithmetic _ es => Expr.callsIn es
  | .chain ls => Link.callsIn ls
termination_by e => sizeOf e

def Expr.callsIn : List Expr → List String
  | [] => []
  | e :: es => e.calls ++ Expr.callsIn es
termination_by es => sizeOf es

def Link.callsIn : List Link → List String
  | [] => []
  | .word _ :: ls => Link.callsIn ls
  | .call name es _ :: ls => name :: (Expr.callsIn es ++ Link.callsIn ls)
  | .malformed _ :: ls => Link.callsIn ls
termination_by ls => sizeOf ls

end

section Calls

variable {R : List Char → List Char → Prop}

mutual

theorem Expr.Alike.calls_eq {e e' : Expr} (h : Expr.Alike R e e') : e.calls = e'.calls := by
  cases h with
  | arithmetic h => rw [Expr.calls, Expr.calls, h.callsIn_eq]
  | chain h => rw [Expr.calls, Expr.calls, h.callsIn_eq]

theorem Expr.AllAlike.callsIn_eq {es es' : List Expr} (h : Expr.AllAlike R es es') :
    Expr.callsIn es = Expr.callsIn es' := by
  cases h with
  | nil => rfl
  | cons he hes => rw [Expr.callsIn, Expr.callsIn, he.calls_eq, hes.callsIn_eq]

theorem Link.AllAlike.callsIn_eq {ls ls' : List Link} (h : Link.AllAlike R ls ls') :
    Link.callsIn ls = Link.callsIn ls' := by
  cases h with
  | nil => rfl
  | word h => rw [Link.callsIn, Link.callsIn, h.callsIn_eq]
  | call hes _ h => rw [Link.callsIn, Link.callsIn, hes.callsIn_eq, h.callsIn_eq]
  | malformed h => rw [Link.callsIn, Link.callsIn, h.callsIn_eq]

end

theorem Expr.callsIn_append (es fs : List Expr) :
    Expr.callsIn (es ++ fs) = Expr.callsIn es ++ Expr.callsIn fs := by
  induction es with
  | nil => rw [Expr.callsIn, List.nil_append, List.nil_append]
  | cons e es ih => rw [List.cons_append, Expr.callsIn, Expr.callsIn, ih, List.append_assoc]

theorem Link.callsIn_append (ls ms : List Link) :
    Link.callsIn (ls ++ ms) = Link.callsIn ls ++ Link.callsIn ms := by
  induction ls with
  | nil => rw [Link.callsIn, List.nil_append, List.nil_append]
  | cons l ls ih => cases l <;> simp [Link.callsIn, ih]

/-- Exchanging an argument exchanges its calls. -/
theorem Expr.Exchange.calls_eq {p q e e' : Expr} (h : Expr.Exchange p q e e') :
    ∃ xs ys, e.calls = xs ++ p.calls ++ ys ∧ e'.calls = xs ++ q.calls ++ ys := by
  induction h with
  | @here ls ls' ms ms' name es fs r r' hls hms =>
    refine ⟨Link.callsIn ls ++ name :: Expr.callsIn es, Expr.callsIn fs ++ Link.callsIn ms, ?_, ?_⟩
    · simp [Expr.calls, Link.callsIn_append, Link.callsIn, Expr.callsIn_append, Expr.callsIn]
    · simp [Expr.calls, Link.callsIn_append, Link.callsIn, Expr.callsIn_append, Expr.callsIn,
        hls.callsIn_eq, hms.callsIn_eq]
  | @argument ls ls' ms ms' name es fs r r' e e' hls hms _ ih =>
    obtain ⟨xs, ys, he, he'⟩ := ih
    refine ⟨Link.callsIn ls ++ name :: (Expr.callsIn es ++ xs),
      ys ++ (Expr.callsIn fs ++ Link.callsIn ms), ?_, ?_⟩
    · simp [Expr.calls, Link.callsIn_append, Link.callsIn, Expr.callsIn_append, Expr.callsIn, he]
    · simp [Expr.calls, Link.callsIn_append, Link.callsIn, Expr.callsIn_append, Expr.callsIn, he',
        hls.callsIn_eq, hms.callsIn_eq]
  | @operand op es fs e e' _ ih =>
    obtain ⟨xs, ys, he, he'⟩ := ih
    refine ⟨Expr.callsIn es ++ xs, ys ++ Expr.callsIn fs, ?_, ?_⟩
    · simp [Expr.calls, Expr.callsIn_append, Expr.callsIn, he]
    · simp [Expr.calls, Expr.callsIn_append, Expr.callsIn, he']

end Calls

/-- Whether scripts that act for `authority` can call on an accessor; `_` takes full authority. -/
def Accessor.Granted (accessor : Accessor) (authority : Int32) : Prop :=
  accessor = .authority → authority = serverOwner

theorem Accessor.Granted.ofValue? (v : Option Value) (authority : Int32) :
    (Accessor.ofValue? v).Granted authority := by
  cases v with
  | none => exact nofun
  | some v => exact nofun

namespace Eval

/-- Two evaluations that have come to the same, with their worlds related by `Q`. What they call may
be called in the world of the first. -/
inductive Coupled (s : Scope) (Q : World → World → Prop) {α : Type} :
    EStateM.Result Interrupt EvalState α → EStateM.Result Interrupt EvalState α → Prop where

  | ok {a : α} {pause : Option Nat} {w w' : World} : Q w w' →
      Coupled s Q (.ok a ⟨w, pause⟩) (.ok a ⟨w', pause⟩)

  | stopped {i : Interrupt} {pause : Option Nat} {w w' : World} : Q w w' →
      (∀ q, i = .call q → s.env.Allows s.entity w q) →
      Coupled s Q (.error i ⟨w, pause⟩) (.error i ⟨w', pause⟩)

def Couples (s : Scope) (Q : World → World → Prop) {α : Type} (x x' : Eval α) : Prop :=
  ∀ w w' pause, Q w w' → Coupled s Q (x.run ⟨w, pause⟩) (x'.run ⟨w', pause⟩)

variable {s : Scope} {Q : World → World → Prop} {α β : Type} {x x' : Eval α} {f f' : α → Eval β}

theorem Couples.pure (a : α) : Couples s Q (Pure.pure a) (Pure.pure a) :=
  fun _ _ _ hq => .ok hq

theorem Couples.fail (e : ScriptError) : Couples s Q (Eval.fail e : Eval α) (Eval.fail e) :=
  fun _ _ _ hq => .stopped hq nofun

theorem Couples.ofExcept (e : Except ScriptError α) :
    Couples s Q (Eval.ofExcept e) (Eval.ofExcept e) := by
  cases e with
  | ok a => exact .pure a
  | error e => exact .fail e

theorem Couples.bind (hx : Couples s Q x x') (hf : ∀ a, Couples s Q (f a) (f' a)) :
    Couples s Q (x >>= f) (x' >>= f') := by
  intro w w' pause hq
  have h := hx w w' pause hq
  rw [EStateM.run_bind, EStateM.run_bind]
  generalize x.run ⟨w, pause⟩ = r at h
  generalize x'.run ⟨w', pause⟩ = r' at h
  cases h with
  | @ok a _ _ _ hq => exact hf a _ _ _ hq
  | stopped hq hi => exact .stopped hq hi

/-- What a result depends on besides the state is the same for both. -/
theorem Couples.ofExcept_bind {e : Except ScriptError α}
    (hf : ∀ a, e = .ok a → Couples s Q (f a) (f' a)) :
    Couples s Q (Eval.ofExcept e >>= f) (Eval.ofExcept e >>= f') := by
  cases e with
  | ok a => exact hf a rfl
  | error e => exact .fail e

theorem Couples.world_bind {f f' : World → Eval β}
    (hf : ∀ w w', Q w w' → Couples s Q (f w) (f' w')) :
    Couples s Q (Eval.world >>= f) (Eval.world >>= f') :=
  fun w w' pause hq => hf w w' hq w w' pause hq

/-- Evaluations that come to the same from all equal worlds are equal. -/
theorem Couples.eq (h : Couples s Eq x x') : x = x' := by
  funext σ
  have hc := h σ.world σ.world σ.pause rfl
  change x.run σ = x'.run σ
  generalize x.run σ = r at hc
  generalize x'.run σ = r' at hc
  cases hc with
  | ok hw => rw [hw]
  | stopped hw _ => rw [hw]

end Eval

open Eval

/-- Two scopes in which calls by the given names come to the same from worlds related by `Q`. -/
structure Scope.CoupledOn (s s' : Scope) (names : List String) (Q : World → World → Prop) :
    Prop where
  line : s'.line = s.line
  root {w w' : World} : Q w w' → s'.resolveRoot w' = s.resolveRoot w
  property {w w' : World} : Q w w' → Scope.readProperty w' = Scope.readProperty w
  invoke : ∀ name ∈ names, ∀ target accessor params resume, accessor.Granted s.authority →
    Couples s Q (s.invoke target accessor name params resume)
      (s'.invoke target accessor name params resume)

namespace Scope

variable {s s' : Scope} {Q : World → World → Prop}

theorem resolveRoot_granted {w : World} {word : List Char} {x : Option Value × Accessor}
    (h : s.resolveRoot w word = .ok x) : x.2.Granted s.authority := by
  unfold resolveRoot at h
  dsimp only at h
  split_ifs at h with hroot hserver hitems hstorage
  · exact fun _ => hserver
  · cases h
    exact nofun
  · split at h
    · split_ifs at h
      cases h
      exact nofun
    · split at h
      · cases h
        exact nofun
      · cases h

theorem CoupledOn.mono {names names' : List String} (h : s.CoupledOn s' names Q)
    (hs : names' ⊆ names) : s.CoupledOn s' names' Q :=
  { h with invoke := fun name hn => h.invoke name (hs hn) }

mutual

theorem eval_couples {e : Expr} (h : s.CoupledOn s' e.calls Q) :
    Couples s Q (s.eval e) (s'.eval e) := by
  match e with
  | .arithmetic op es =>
    rw [Expr.calls] at h
    rw [eval, eval]
    exact evalOperands_couples op none h
  | .chain ls =>
    rw [Expr.calls] at h
    rw [eval, eval]
    exact evalChain_couples true h
termination_by 2 * sizeOf e

theorem evalOperands_couples (op : ArithmeticOp) (acc : Option Int64) {es : List Expr}
    (h : s.CoupledOn s' (Expr.callsIn es) Q) :
    Couples s Q (s.evalOperands op acc es) (s'.evalOperands op acc es) := by
  match es with
  | [] =>
    cases acc with
    | none =>
      rw [evalOperands, evalOperands]
      exact .fail _
    | some n =>
      rw [evalOperands, evalOperands]
      exact .pure _
  | e :: es =>
    rw [Expr.callsIn] at h
    rw [evalOperands, evalOperands]
    refine (eval_couples (h.mono (List.subset_append_left _ _))).bind fun v => ?_
    exact (Couples.ofExcept _).bind fun n =>
      evalOperands_couples op (some n) (h.mono (List.subset_append_right _ _))
termination_by 2 * sizeOf es

theorem evalChain_couples (wanted : Bool) {ls : List Link}
    (h : s.CoupledOn s' (Link.callsIn ls) Q) :
    Couples s Q (s.evalChain wanted ls) (s'.evalChain wanted ls) := by
  match ls with
  | [] =>
    rw [evalChain, evalChain]
    exact .fail _
  | .word t :: ls =>
    rw [Link.callsIn] at h
    rw [evalChain, evalChain]
    refine .world_bind fun w w' hq => ?_
    rw [h.root hq]
    exact .ofExcept_bind fun x hx => evalLinks_couples wanted x.1 (resolveRoot_granted hx) h
  | .call name es r :: ls =>
    rw [evalChain, evalChain]
    · exact evalLinks_couples wanted none (.ofValue? none _) h
    · simp
    · simp
  | .malformed t :: ls =>
    rw [evalChain, evalChain]
    · exact evalLinks_couples wanted none (.ofValue? none _) h
    · simp
    · simp
termination_by 2 * sizeOf ls + 1

theorem evalLinks_couples (wanted : Bool) (current : Option Value) {accessor : Accessor}
    (ha : accessor.Granted s.authority) {ls : List Link} (h : s.CoupledOn s' (Link.callsIn ls) Q) :
    Couples s Q (s.evalLinks wanted current accessor ls)
      (s'.evalLinks wanted current accessor ls) := by
  match ls with
  | [] =>
    rw [evalLinks, evalLinks]
    exact .pure _
  | .word name :: ls =>
    rw [Link.callsIn] at h
    rw [evalLinks, evalLinks]
    refine .world_bind fun w w' hq => ?_
    rw [h.property hq]
    exact .ofExcept_bind fun v _ => evalLinks_couples wanted (some v) (.ofValue? (some v) _) h
  | .call name es r :: ls =>
    rw [Link.callsIn] at h
    have hes : s.CoupledOn s' (Expr.callsIn es) Q := h.mono fun n hn => by simp [hn]
    have hls : s.CoupledOn s' (Link.callsIn ls) Q := h.mono fun n hn => by simp [hn]
    rw [evalLinks, evalLinks, resumePoint, resumePoint, h.line]
    refine (evalArguments_couples hes).bind fun params => ?_
    refine (h.invoke name List.mem_cons_self current accessor params _ ha).bind fun v => ?_
    exact evalLinks_couples wanted v (.ofValue? v _) hls
  | .malformed t :: ls =>
    rw [evalLinks, evalLinks]
    exact .fail _
termination_by 2 * sizeOf ls

theorem evalArguments_couples {es : List Expr} (h : s.CoupledOn s' (Expr.callsIn es) Q) :
    Couples s Q (s.evalArguments es) (s'.evalArguments es) := by
  match es with
  | [] =>
    rw [evalArguments, evalArguments]
    exact .pure _
  | e :: es =>
    rw [Expr.callsIn] at h
    rw [evalArguments, evalArguments]
    refine (eval_couples (h.mono (List.subset_append_left _ _))).bind fun v => ?_
    exact (evalArguments_couples (h.mono (List.subset_append_right _ _))).bind fun vs => .pure _
termination_by 2 * sizeOf es

end

end Scope

/-- The trees that a statement evaluates. -/
def Statement.exprs : Statement → List Expr
  | .declare definition =>
    match splitDefinition definition with
    | .ok (_, value) => [.parse value]
    | .error _ => []
  | .branch condition =>
    (Condition.parse condition).clauses.flatMap fun k => [.parse k.left, .parse k.right]
  | .assign _ value => [.parse value]
  | .bare chain => [.chain (Link.parse chain)]
  | .blank | .close | .otherwise => []

namespace Fiber

variable {s s' : Scope} {Q : World → World → Prop}

theorem compareClause_couples {k : Clause}
    (h : s.CoupledOn s' ((Expr.parse k.left).calls ++ (Expr.parse k.right).calls) Q) :
    Couples s Q (compareClause s k) (compareClause s' k) :=
  (Scope.eval_couples (h.mono (List.subset_append_left _ _))).bind fun _ =>
    (Scope.eval_couples (h.mono (List.subset_append_right _ _))).bind fun _ => .ofExcept _

theorem foldlM_couples {ks : List Clause}
    (h : s.CoupledOn s' (Expr.callsIn (ks.flatMap fun k => [.parse k.left, .parse k.right])) Q)
    (t : Tally) :
    Couples s Q (ks.foldlM (fun t k => return t.add k (← compareClause s k)) t)
      (ks.foldlM (fun t k => return t.add k (← compareClause s' k)) t) := by
  induction ks generalizing t with
  | nil => exact .pure t
  | cons k ks ih =>
    rw [List.flatMap_cons, Expr.callsIn_append] at h
    have hk : s.CoupledOn s' ((Expr.parse k.left).calls ++ (Expr.parse k.right).calls) Q := by
      refine h.mono fun n hn => ?_
      simp only [Expr.callsIn, List.append_nil]
      exact List.mem_append_left _ hn
    rw [List.foldlM_cons, List.foldlM_cons]
    refine ((compareClause_couples hk).bind fun b => .pure _).bind fun t => ?_
    exact ih (h.mono (List.subset_append_right _ _)) t

/-- A statement acts through the calls in its trees only. -/
theorem execute_couples {st : Statement} (h : s.CoupledOn s' (Expr.callsIn st.exprs) Q)
    (f : Fiber) : Couples s Q (execute s f st) (execute s' f st) := by
  cases st with
  | blank | close | otherwise => exact .pure f
  | declare d =>
    rw [execute, execute]
    refine .ofExcept_bind fun x hd => ?_
    have he : s.CoupledOn s' (Expr.parse x.2).calls Q := by
      simpa [Statement.exprs, hd, Expr.callsIn] using h
    dsimp only
    split
    · exact .fail _
    · exact (Scope.eval_couples he).bind fun v => .pure _
  | branch c =>
    rw [execute, execute, Condition.evaluate, Condition.evaluate]
    refine ((foldlM_couples h {}).bind fun t => .pure _).bind fun taken => ?_
    exact (Couples.ofExcept taken).bind fun b => .pure _
  | assign name value =>
    have he : s.CoupledOn s' (Expr.parse value).calls Q := by
      simpa [Statement.exprs, Expr.callsIn] using h
    simp only [execute]
    split
    · exact .fail _
    · split
      · exact .fail _
      · exact (Scope.eval_couples he).bind fun v => .pure _
  | bare chain =>
    have he : s.CoupledOn s' (Link.callsIn (Link.parse chain)) Q := by
      simpa [Statement.exprs, Expr.callsIn, Expr.calls] using h
    rw [execute, execute]
    exact (Scope.evalChain_couples false he).bind fun v => .pure f

end Fiber

/-- Two scopes in which calls by the given names come to the same. -/
structure Scope.AgreesOn (s s' : Scope) (names : List String) : Prop where
  root : s.resolveRoot = s'.resolveRoot
  line : s.line = s'.line
  invoke : ∀ name ∈ names, ∀ target accessor params resume,
    s.invoke target accessor name params resume = s'.invoke target accessor name params resume

namespace Scope

variable {s s' : Scope} {names names' : List String}

theorem AgreesOn.mono (h : s.AgreesOn s' names) (hs : names' ⊆ names) : s.AgreesOn s' names' :=
  { h with invoke := fun name hn => h.invoke name (hs hn) }

/-- A system function makes no call. -/
theorem systemCall_ne_call (s : Scope) (name : String) (f : SystemFunction) (accessor : Accessor)
    (params : List Value) (σ σ' : EvalState) (q : CallRequest) :
    (s.systemCall name f accessor params).run σ ≠ .error (.call q) σ' := by
  unfold systemCall
  simp only [EStateM.run_bind, Eval.run_world, EStateM.run_modify]
  split
  · exact nofun
  · split
    · exact nofun
    · split <;> exact nofun

/-- Calls that leave an evaluation may be made. -/
theorem invoke_allows {target : Option Value} {accessor : Accessor} {name : String}
    {params : List Value} {resume : Option ResumePoint} {σ σ' : EvalState} {q : CallRequest}
    (h : (s.invoke target accessor name params resume).run σ = .error (.call q) σ') :
    s.env.Allows s.entity σ'.world q := by
  unfold invoke at h
  simp only [EStateM.run_bind, Eval.run_world] at h
  split at h
  · next q' hq =>
    cases h
    exact functionCall?_allows hq
  · cases h
  · split at h
    · exact (s.systemCall_ne_call _ _ _ _ _ _ _ h).elim
    · cases h

theorem AgreesOn.coupledOn (h : s.AgreesOn s' names) : s.CoupledOn s' names Eq where
  line := h.line.symm
  root := by
    rintro w _ rfl
    rw [h.root]
  property := by
    rintro w _ rfl
    rfl
  invoke := by
    rintro name hn target accessor params resume - w _ pause rfl
    rw [← h.invoke name hn]
    cases hx : (s.invoke target accessor name params resume).run ⟨w, pause⟩ with
    | ok v σ => exact .ok rfl
    | error i σ =>
      refine .stopped rfl ?_
      rintro q rfl
      exact invoke_allows hx

end Scope

/-- A statement calls functions only by the names in its trees. -/
theorem Fiber.execute_agrees {s s' : Scope} {st : Statement}
    (h : s.AgreesOn s' (Expr.callsIn st.exprs)) (f : Fiber) : execute s f st = execute s' f st :=
  (execute_couples h.coupledOn f).eq

end TileScript
