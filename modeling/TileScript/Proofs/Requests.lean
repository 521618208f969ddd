import TileScript.Fiber.Evaluate
import TileScript.Proofs.Changes

/-! # Requests

The calls that a script may make in a world: of a function that the type of the target has, with as
many parameters as it asks for, and on somebody the caller faces or with something that it holds.
Every call that leaves an evaluation is one of these in the world at that moment, and no call on
somebody faced is refused.
-/

namespace TileScript

/-- A function that is among those with the numbers `ids`, is defined and asks for these many
parameters. -/
structure FunctionDescriptor.Takes (f : FunctionDescriptor) (table : FunctionTable)
    (ids : List Nat) (params : List Value) : Prop where
  registered : ∃ id ∈ ids, table.get? id = some f
  defined : f.isDefined = true
  arity : f.parameterCount = params.length

/-- The variables that hand over parameters. -/
def Value.parameters (params : List Value) : List (String × Value) :=
  params.mapIdx fun i v => ("_param" ++ i.repr, v)

/-- The call of a function of an entity, made from another one. -/
def CallRequest.ofEntity (own target : EntityId) (callee : Entity) (f : FunctionDescriptor)
    (params : List Value) (resume : Option ResumePoint) : CallRequest where
  host := target
  authority := callee.owner
  category := .entity
  script := f.scriptName
  seeds := ("_entity", .entity own) :: Value.parameters params
  resume

/-- The call of a function of an item, made by the one who holds it. -/
def CallRequest.ofItem (own : EntityId) (caller : Entity) (item : ItemId) (f : FunctionDescriptor)
    (params : List Value) (resume : Option ResumePoint) : CallRequest where
  host := own
  authority := caller.owner
  category := .item
  script := f.scriptName
  seeds := ("_entity", .entity own) :: ("_item", .item item) :: Value.parameters params
  resume

/-- What a script on `own` may call in a world. -/
inductive Environment.Allows (env : Environment) (own : EntityId) (w : World) :
    CallRequest → Prop where

  | entity {target : EntityId} {caller callee : Entity} {f : FunctionDescriptor}
      {params : List Value} {resume : Option ResumePoint} :
      w.entity? own = some caller → w.entity? target = some callee →
      callee.pos = caller.pos.step caller.direction →
      f.Takes env.functions (env.typeFunctions.entity.getD callee.typeId []) params →
      Allows env own w (.ofEntity own target callee f params resume)

  | item {id : ItemId} {item : Item} {caller : Entity} {f : FunctionDescriptor}
      {params : List Value} {resume : Option ResumePoint} :
      w.entity? own = some caller → w.item? id = some item → some id ∈ caller.storage →
      f.Takes env.functions (env.typeFunctions.item.getD item.typeId []) params →
      Allows env own w (.ofItem own caller id f params resume)

theorem TypeFunctions.find?_registered {table : FunctionTable} {ids : List Nat} {name : String}
    {f : FunctionDescriptor} (h : find? table ids name = some f) :
    ∃ id ∈ ids, table.get? id = some f :=
  List.mem_filterMap.1 (List.mem_of_find?_eq_some h)

namespace Scope

variable {s : Scope} {w : World} {f : FunctionDescriptor} {params : List Value}
  {resume : Option ResumePoint} {q : CallRequest}

theorem paramSeeds_eq (params : List Value) : paramSeeds params = Value.parameters params := by
  unfold paramSeeds Value.parameters
  rw [List.mapIdx_eq_zipIdx_map]

theorem checkArity_ok_iff {got : Nat} {u : Unit} :
    checkArity f got = .ok u ↔ f.isDefined = true ∧ f.parameterCount = got := by
  unfold checkArity
  split
  · next hd => simp_all
  · next hd =>
    have hd : f.isDefined = true := by simpa using hd
    have hn : 0 ≤ f.parameterCount := by simpa [FunctionDescriptor.isDefined] using hd
    split
    · next hg =>
      have hne : f.parameterCount ≠ got := by omega
      simp [hne]
    · next hg =>
      have heq : f.parameterCount = got := by omega
      simp [hd, heq]

theorem existingEntity_ok_iff {id : EntityId} {e : Entity} :
    existingEntity w id = .ok e ↔ w.entity? id = some e := by
  unfold existingEntity
  split
  · next hs => simp [hs]
  · next hn => simp [hn]

theorem entityCall_allows {target : EntityId} {ids : List Nat}
    (hf : ∃ id ∈ ids, s.env.functions.get? id = some f)
    (h : s.entityCall w target f params resume = .ok q) :
    ∃ caller callee, w.entity? s.entity = some caller ∧ w.entity? target = some callee ∧
      callee.pos = caller.pos.step caller.direction ∧ f.Takes s.env.functions ids params ∧
      q = .ofEntity s.entity target callee f params resume := by
  obtain ⟨u, ha, h⟩ := World.of_bind_ok h
  obtain ⟨caller, hr, h⟩ := World.of_bind_ok h
  obtain ⟨callee, he, h⟩ := World.of_bind_ok h
  obtain ⟨hd, hn⟩ := checkArity_ok_iff.1 ha
  dsimp only at h
  split at h
  · cases h
  · split at h
    · cases h
    · next hp =>
      cases h
      refine ⟨caller, callee, existingEntity_ok_iff.1 hr, existingEntity_ok_iff.1 he, ?_,
        ⟨hf, hd, hn⟩, ?_⟩
      · exact (Decidable.not_not.1 hp).symm
      · rw [paramSeeds_eq]
        rfl

theorem itemCall_allows {item : ItemId} {ids : List Nat}
    (hf : ∃ id ∈ ids, s.env.functions.get? id = some f)
    (h : s.itemCall w item f params resume = .ok q) :
    ∃ caller, w.entity? s.entity = some caller ∧ some item ∈ caller.storage ∧
      f.Takes s.env.functions ids params ∧
      q = .ofItem s.entity caller item f params resume := by
  obtain ⟨u, ha, h⟩ := World.of_bind_ok h
  obtain ⟨caller, hr, h⟩ := World.of_bind_ok h
  obtain ⟨hd, hn⟩ := checkArity_ok_iff.1 ha
  split at h
  · cases h
  · next hs =>
    cases h
    refine ⟨caller, existingEntity_ok_iff.1 hr, ?_, ⟨hf, hd, hn⟩, ?_⟩
    · simpa [Entity.holds] using hs
    · rw [paramSeeds_eq]
      rfl

/-- What is called may be called. -/
theorem functionCall?_allows {target : Option Value} {name : String}
    (h : s.functionCall? w target name params resume = some (.ok q)) :
    s.env.Allows s.entity w q := by
  unfold functionCall? at h
  split at h
  · obtain ⟨f, hf, h⟩ := Option.map_eq_some_iff.1 h
    obtain ⟨callee, he, hf⟩ := Option.bind_eq_some_iff.1 hf
    obtain ⟨caller, callee', hr, he', hp, ht, rfl⟩ :=
      entityCall_allows (TypeFunctions.find?_registered hf) h
    obtain rfl : callee = callee' := Option.some.inj (he.symm.trans he')
    exact .entity hr he hp ht
  · obtain ⟨f, hf, h⟩ := Option.map_eq_some_iff.1 h
    obtain ⟨item, hi, hf⟩ := Option.bind_eq_some_iff.1 hf
    obtain ⟨caller, hr, hs, ht, rfl⟩ := itemCall_allows (TypeFunctions.find?_registered hf) h
    exact .item hr hi hs ht
  · cases h

end Scope

end TileScript
