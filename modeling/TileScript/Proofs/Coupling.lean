import TileScript.Proofs.Deeds
import TileScript.Proofs.Dispatch
import TileScript.Proofs.Kind

/-! # Activations side by side

A fiber is activated in two worlds that its script cannot tell apart, and perhaps with other system
functions. If the system functions come to the same for it and keep the worlds related, then so does
the whole activation, and whatever it calls it may call. Taken with a world and itself, this says
what every activation keeps.
-/

namespace TileScript

open World Eval

/-- A call that scripts on `own` can make that act for `authority`. -/
structure SystemCall.MadeBy (own : EntityId) (authority : Int32) (call : SystemCall) : Prop where
  entity : call.entity = own
  authority : call.authority = authority
  granted : call.accessor.Granted call.authority

/-- The system functions of an environment and others that come to the same for calls of scripts on
`own` that act for `authority`, from worlds related by `Q`. -/
structure Environment.Coupled (env : Environment) (systems : SystemTable) (own : EntityId)
    (authority : Int32) (Q : World → World → Prop) : Prop where
  indistinct {w w' : World} : Q w w' → Indistinct own w w'
  system (name : String) : Option.Rel (fun f f' => ∀ call : SystemCall, call.MadeBy own authority →
    ∀ w w', Q w w' → (f' call w').1 = (f call w).1 ∧ Q (f call w).2 (f' call w').2)
    env.systems[name]? systems[name]?
  cool {w w' u u' : World} {ticks : Nat} : Q w w' → w.extendCooldown own ticks = .ok u →
    w'.extendCooldown own ticks = .ok u' → Q u u'

namespace World.Indistinct

variable {w w' : World}

theorem resolveRoot {s : Scope} (h : Indistinct s.entity w w') :
    s.resolveRoot w' = s.resolveRoot w := by
  funext word
  have hex (v : Value) : Scope.valueExists w' v = Scope.valueExists w v := by
    cases v with
    | entity id => exact h.isSome_entity? id
    | item id => exact congrArg Option.isSome (h.item? id)
    | int | text => rfl
  unfold Scope.resolveRoot
  simp only [h.own, hex]

theorem readProperty {own : EntityId} (h : Indistinct own w w') :
    Scope.readProperty w' = Scope.readProperty w := by
  funext target name
  have hp (id : EntityId) (property : String) :
      (w'.entity? id).bind (·.vars[property]?) = (w.entity? id).bind (·.vars[property]?) :=
    h.bind_entity? (fun _ => rfl) id
  unfold Scope.readProperty
  simp only [hp]

theorem targetTypeName {own : EntityId} (h : Indistinct own w w') (target : Option Value) :
    Scope.targetTypeName w' target = Scope.targetTypeName w target := by
  unfold Scope.targetTypeName
  simp only [h.entityTypeOf?, h.itemTypeOf?]

variable {s : Scope}

/-- A call looks at nothing of the target that scripts on the caller cannot see. -/
theorem entityCall (h : Indistinct s.entity w w') (target : EntityId) (f : FunctionDescriptor)
    (params : List Value) (resume : Option ResumePoint) :
    s.entityCall w' target f params resume = s.entityCall w target f params resume := by
  unfold Scope.entityCall Scope.existingEntity
  rw [h.own]
  have hc := h.core target
  cases he : w.entity? target with
  | none =>
    rw [he, Option.map_none, Option.map_eq_none_iff] at hc
    rw [hc]
  | some e =>
    rw [he] at hc
    obtain ⟨e', he', hcore⟩ := Option.map_eq_some_iff.1 hc
    have hp : e'.pos = e.pos := (congrArg Entity.pos hcore :)
    have ho : e'.owner = e.owner := (congrArg Entity.owner hcore :)
    rw [he']
    simp only [bind, Except.bind, hp, ho]

theorem itemCall (h : Indistinct s.entity w w') (item : ItemId) (f : FunctionDescriptor)
    (params : List Value) (resume : Option ResumePoint) :
    s.itemCall w' item f params resume = s.itemCall w item f params resume := by
  unfold Scope.itemCall Scope.existingEntity
  rw [h.own]

theorem functionCall? (h : Indistinct s.entity w w') (target : Option Value) (name : String)
    (params : List Value) (resume : Option ResumePoint) :
    s.functionCall? w' target name params resume = s.functionCall? w target name params resume := by
  have hf (id : EntityId) : s.env.typeFunctions.resolveEntity? w' s.env.functions id name =
      s.env.typeFunctions.resolveEntity? w s.env.functions id name :=
    h.bind_entity? (fun _ => rfl) id
  unfold Scope.functionCall? TypeFunctions.resolveItem?
  simp only [hf, h.entityCall, h.itemCall, h.item?]

end World.Indistinct

section Scope

variable {Q : World → World → Prop}

theorem Scope.systemCall_couples {s s' : Scope} {f f' : SystemFunction} {accessor : Accessor}
    (he : s'.entity = s.entity) (ha : s'.authority = s.authority)
    (hg : accessor.Granted s.authority)
    (h : ∀ call : SystemCall, call.MadeBy s.entity s.authority → ∀ w w', Q w w' →
      (f' call w').1 = (f call w).1 ∧ Q (f call w).2 (f' call w').2)
    (name : String) (params : List Value) :
    Couples s Q (s.systemCall name f accessor params) (s'.systemCall name f' accessor params) := by
  intro w w' pause hq
  obtain ⟨hr, hq⟩ := h ⟨s.entity, s.authority, accessor, params⟩ ⟨rfl, rfl, hg⟩ w w' hq
  unfold Scope.systemCall
  simp only [EStateM.run_bind, Eval.run_world, EStateM.run_modify, he, ha]
  generalize f ⟨s.entity, s.authority, accessor, params⟩ w = x at hr hq ⊢
  generalize f' ⟨s.entity, s.authority, accessor, params⟩ w' = x' at hr hq ⊢
  obtain ⟨r, u⟩ := x
  obtain ⟨r', u'⟩ := x'
  obtain rfl : r' = r := hr
  cases r'.data.bind Sentinel.decode? with
  | some sentinel => exact .stopped hq nofun
  | none =>
    dsimp only
    split
    · exact .stopped hq nofun
    · split
      · exact .ok hq
      · exact .ok hq

variable {env : Environment} {systems : SystemTable}

/-- Scripts see the same and do the same. -/
theorem Environment.Coupled.scope {f : Fiber}
    (h : env.Coupled systems f.entity f.authority Q) (line : List Char) (names : List String) :
    (f.scope env line).CoupledOn (f.scope { env with systems } line) names Q where
  line := rfl
  root hq := (h.indistinct hq).resolveRoot (s := f.scope env line)
  property hq := (h.indistinct hq).readProperty
  invoke := by
    intro name _ target accessor params resume hg w w' pause hq
    have hcall : (f.scope { env with systems } line).functionCall? w' target name params resume =
        (f.scope env line).functionCall? w target name params resume :=
      (h.indistinct hq).functionCall? (s := f.scope env line) target name params resume
    unfold Scope.invoke
    simp only [EStateM.run_bind, Eval.run_world, hcall, (h.indistinct hq).targetTypeName]
    split
    · next q hc =>
      refine .stopped hq ?_
      rintro _ ⟨⟩
      exact Scope.functionCall?_allows hc
    · exact Couples.fail _ w w' pause hq
    · have hs := h.system name
      dsimp only [Fiber.scope]
      generalize env.systems[name]? = x at hs
      generalize systems[name]? = x' at hs
      cases hs with
      | some hf =>
        exact Scope.systemCall_couples rfl rfl hg hf name params w w' pause hq
      | none => exact Couples.fail _ w w' pause hq

end Scope

namespace Fiber

/-- Two activations that have come to the same, with their worlds related by `Q`. What they call may
be called in the world of the first. -/
structure Coupled (env : Environment) (own : EntityId) (Q : World → World → Prop)
    (r r' : Outcome × Fiber × World) : Prop where
  outcome : r'.1 = r.1
  fiber : r'.2.1 = r.2.1
  world : Q r.2.2 r'.2.2
  allows (q : CallRequest) : r.1 = .called q → env.Allows own r.2.2 q

variable {env : Environment} {systems : SystemTable} {own : EntityId} {authority : Int32}
  {Q : World → World → Prop} {w w' : World}

theorem Coupled.of_eq {o : Outcome} (f : Fiber) (hq : Q w w')
    (ho : ∀ q, o ≠ .called q := by simp) : Coupled env own Q (o, f, w) (o, f, w') :=
  ⟨rfl, rfl, hq, fun q h => absurd h (ho q)⟩

theorem terminate_coupled (f : Fiber) (ending : Ending) (line : Option Nat) (hq : Q w w') :
    Coupled env own Q (f.terminate ending line w) (f.terminate ending line w') :=
  .of_eq _ hq

theorem coolDown_coupled {f : Fiber} (h : env.Coupled systems f.entity authority Q) (ticks : Nat)
    (hq : Q w w') : Q (f.coolDown ticks w) (f.coolDown ticks w') := by
  unfold coolDown
  split
  · exact hq
  · obtain ⟨e, hu, hu'⟩ | ⟨u, u', hu, hu', -⟩ := of_map_eq ((h.indistinct hq).updateEntity f.entity
      (·.extendCooldown ticks w.config.maxCooldown) (·.extendCooldown ticks w'.config.maxCooldown))
    · rw [World.extendCooldown, World.extendCooldown, hu, hu']
      exact hq
    · have hc := h.cool hq hu hu'
      rw [World.extendCooldown, World.extendCooldown, hu, hu']
      exact hc

theorem bearer_of_nextStatement {f g : Fiber} {coming : List (List Char)} {evaluated : Bool}
    {r : Search} (h : f.nextStatement coming evaluated = (g, r)) :
    g.entity = f.entity ∧ g.authority = f.authority := by
  have hg : g = (f.nextStatement coming evaluated).1 := by rw [h]
  rw [hg]
  unfold nextStatement
  split
  · split <;> exact ⟨rfl, rfl⟩
  · exact ⟨rfl, rfl⟩

theorem runStatements_coupled (h : env.Coupled systems own authority Q) (budget : Nat) {f : Fiber}
    (he : f.entity = own) (ha : f.authority = authority) (coming : List (List Char))
    (evaluated : Bool) (hq : Q w w') :
    Coupled env own Q (f.runStatements env budget coming evaluated w)
      (f.runStatements { env with systems } budget coming evaluated w') := by
  induction budget generalizing f coming evaluated w w' with
  | zero =>
    rw [runStatements, runStatements]
    split
    · exact .of_eq _ hq
    · exact terminate_coupled _ _ _ hq
    · exact terminate_coupled _ _ _ hq
  | succ budget ih =>
    rcases hn : f.nextStatement coming evaluated with ⟨g, c | ⟨c, k⟩ | ⟨c, line, st⟩⟩
    · rw [runStatements, runStatements, hn]
      exact .of_eq _ hq
    · rw [runStatements, runStatements, hn]
      exact terminate_coupled _ _ _ hq
    · obtain ⟨hge, hga⟩ := bearer_of_nextStatement hn
      subst he ha
      rw [← hge, ← hga] at h ih
      rw [← hge]
      have hs := h.scope (f := { g with cursor := c }) line (Expr.callsIn st.exprs)
      have hx := execute_couples hs { g with cursor := c } w w' none hq
      rw [runStatements_found hn, runStatements_found hn]
      generalize hr : (execute (scope _ env line) _ st).run _ = r at hx
      generalize (execute (scope _ { env with systems } line) _ st).run _ = r' at hx
      cases hx with
      | @ok k pause _ _ hq =>
        -- The statement has changed variables and cursor only, so `ih` is about its bearer, too.
        obtain ⟨vars, cursor, rfl, -⟩ := execute_ok hr
        cases pause with
        | some ticks => exact .of_eq _ (coolDown_coupled h ticks hq)
        | none => exact ih (f := { g with vars, cursor }) rfl rfl _ _ hq
      | @stopped i _ _ _ hq hi =>
        cases i with
        | error e => exact terminate_coupled _ _ _ hq
        | exit v => exact terminate_coupled _ _ _ hq
        | call q =>
          refine ⟨rfl, rfl, hq, ?_⟩
          rintro _ ⟨⟩
          exact hi q rfl

theorem run_coupled {f : Fiber} (h : env.Coupled systems f.entity f.authority Q)
    (resumed : Option (List Char)) (hq : Q w w') :
    Coupled env f.entity Q (f.run env resumed w) (f.run { env with systems } resumed w') := by
  cases resumed with
  | none => exact runStatements_coupled h _ rfl rfl _ _ hq
  | some line => exact runStatements_coupled h _ rfl rfl _ _ hq

theorem resume_coupled {f : Fiber} (h : env.Coupled systems f.entity f.authority Q)
    (hq : Q w w') :
    Coupled env f.entity Q (f.resume env w) (f.resume { env with systems } w') := by
  unfold resume
  dsimp only
  split
  · exact terminate_coupled _ _ _ hq
  · next p _ _ =>
    split
    · exact run_coupled (f := { f with received := none, pending := none }) h _ hq
    · exact terminate_coupled _ _ _ hq
  · exact run_coupled (f := { f with received := none }) h none hq
  · exact run_coupled h none hq

/-- A whole activation comes to the same if its system functions do. -/
theorem activate_coupled {f : Fiber} (h : env.Coupled systems f.entity f.authority Q)
    (forced : Bool) (hq : Q w w') :
    Coupled env f.entity Q (f.activate env forced w)
      (f.activate { env with systems } forced w') := by
  unfold activate
  rw [(h.indistinct hq).own]
  split
  · exact .of_eq f hq
  · split
    · exact terminate_coupled _ _ _ hq
    · split
      · exact .of_eq f hq
      · split
        · exact .of_eq f hq
        · exact resume_coupled (f := { f with
            lastTick := some env.tick, state := .running, awaiting := none }) h hq

end Fiber

/-- A relation between worlds that is kept by all that scripts on `own` can do that act for
`authority`. -/
structure Environment.Keeps (env : Environment) (own : EntityId) (authority : Int32)
    (R : World → World → Prop) : Prop where
  refl (w : World) : R w w
  trans {w₁ w₂ w₃ : World} : R w₁ w₂ → R w₂ w₃ → R w₁ w₃
  system {name : String} {f : SystemFunction} {call : SystemCall} (w : World) :
    env.systems[name]? = some f → call.MadeBy own authority → R w (f call w).2
  cool {w w' : World} {ticks : Nat} : w.extendCooldown own ticks = .ok w' → R w w'

section Keeps

variable {env : Environment} {own : EntityId} {authority : Int32} {R : World → World → Prop}

theorem Option.rel_self {α : Type} {r : α → α → Prop} {x : Option α}
    (h : ∀ a, x = some a → r a a) : Option.Rel r x x := by
  cases x with
  | none => exact .none
  | some a => exact .some (h a rfl)

theorem Option.rel_mono {α β : Type} {r r' : α → β → Prop} {x : Option α} {y : Option β}
    (h : Option.Rel r x y) (hr : ∀ a b, r a b → r' a b) : Option.Rel r' x y := by
  cases h with
  | none => exact .none
  | some h => exact .some (hr _ _ h)

theorem Environment.Keeps.coupled (h : env.Keeps own authority R) (w₀ : World) :
    env.Coupled env.systems own authority fun w w' => w' = w ∧ R w₀ w where
  indistinct := by
    rintro w _ ⟨rfl, -⟩
    exact .refl own _
  system name := by
    refine Option.rel_self fun f hf call hc => ?_
    rintro w _ ⟨rfl, hr⟩
    exact ⟨rfl, rfl, h.trans hr (h.system _ hf hc)⟩
  cool := by
    rintro w _ u u' ticks ⟨rfl, hr⟩ hu hu'
    exact ⟨Except.ok.inj (hu'.symm.trans hu), h.trans hr (h.cool hu)⟩

theorem Fiber.activate_keeps {f : Fiber} (h : env.Keeps f.entity f.authority R) (forced : Bool)
    (w : World) : R w (f.activate env forced w).2.2 :=
  (activate_coupled (h.coupled w) forced ⟨rfl, h.refl w⟩).world.2

end Keeps

/-- Functions that are equal for all calls that can be made come to the same from the same world. -/
theorem Environment.Coupled.of_eq {env : Environment} {systems : SystemTable} {own : EntityId}
    {authority : Int32} (h : ∀ name : String, Option.Rel (fun f f' => ∀ call : SystemCall,
      call.MadeBy own authority → f' call = f call) env.systems[name]? systems[name]?) :
    env.Coupled systems own authority Eq where
  indistinct := by
    rintro w _ rfl
    exact .refl own w
  system name := by
    refine Option.rel_mono (h name) fun f f' hf call hc => ?_
    rintro w _ rfl
    rw [hf call hc]
    exact ⟨rfl, rfl⟩
  cool := by
    rintro w _ u u' ticks rfl hu hu'
    exact Except.ok.inj (hu.symm.trans hu')

section Example

/-- Somebody in front of a door. -/
def doorWorld : World where
  entities := {
    (⟨0⟩, { id := ⟨0⟩, typeId := 0, owner := 7, pos := ⟨0, 0, 0⟩ }),
    (⟨1⟩, { id := ⟨1⟩, typeId := 1, owner := 9, pos := ⟨0, 0, 1⟩ })}
  tiles := {(⟨0, 0, 0⟩, [⟨0⟩]), (⟨0, 0, 1⟩, [⟨1⟩])}

def doorFunction : FunctionDescriptor where
  id := 0
  category := .entity
  owner := "door"
  name := "open"
  parameterCount := 1

def doorEnvironment : Environment :=
  { keyEnvironment with
    functions := ⟨[doorFunction]⟩
    typeFunctions := { entity := {(1, [0])} }
    systems := .builtins }

end Example

end TileScript
