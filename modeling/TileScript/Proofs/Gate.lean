import TileScript.Proofs.Deeds
import TileScript.Proofs.Interrupts

/-! # The gate of an entity

Cooldown and queued commands decide whether scripts may run on an entity. A built-in function leaves
all gates alone, except that a step queues a command for the entity of the calling script, and then
it makes the script pause. So a line that is evaluated to its end without a pause has changed no
gate.
-/

namespace TileScript

/-- What decides whether scripts may run on an entity. -/
structure Gate where
  cooldown : Nat
  commands : List Command
  deriving DecidableEq, Repr

def Gate.isOpen (g : Gate) : Bool := g.cooldown == 0 && g.commands.isEmpty

def Entity.gate (e : Entity) : Gate := ⟨e.cooldown, e.commands⟩

theorem Entity.isOpen_gate (e : Entity) : e.gate.isOpen = e.canAct := rfl

namespace World

variable {w w' : World} {id : EntityId} {e : Entity}

/-- The gate of an entity, if there is one with this number. -/
def gate? (w : World) (id : EntityId) : Option Gate := (w.entity? id).map Entity.gate

theorem gate?_of_entity? (h : w.entity? id = some e) : w.gate? id = some e.gate := by
  rw [gate?, h]
  rfl

theorem gate?_setEntity (w : World) (id : EntityId) (e : Entity) :
    (w.setEntity id e).gate? = Function.update w.gate? id (some e.gate) := by
  funext j
  unfold gate?
  rw [entity?_setEntity, Function.update_apply, Function.update_apply]
  split <;> rfl

theorem gate?_setEntity_self {e' : Entity} (h : w.entity? id = some e) (he : e'.gate = e.gate) :
    (w.setEntity id e').gate? = w.gate? := by
  rw [gate?_setEntity, he, ← gate?_of_entity? h, Function.update_eq_self]

theorem gate?_emit (w : World) (kind : EventKind) : (w.emit kind).gate? = w.gate? := rfl

section Operations

theorem appendLog_gate? {message : String} (h : w.appendLog id message = .ok w') :
    w'.gate? = w.gate? := by
  obtain ⟨e, he, rfl⟩ := appendLog_ok h
  rw [gate?_emit]
  exact gate?_setEntity_self he rfl

theorem shake_gate? {seconds : Binary64} (h : w.shake id seconds = .ok w') :
    w'.gate? = w.gate? := by
  rw [shake_ok h, gate?_emit]

theorem giveItem_gate? {itemType : UInt32} {item : ItemId}
    (h : w.giveItem id itemType = .ok (item, w')) : w'.gate? = w.gate? := by
  obtain ⟨e, slot, he, -, -, rfl⟩ := giveItem_ok h
  have hset : (w.setEntity id
      { e with storage := e.storage.set slot (some item) }).gate? = w.gate? :=
    gate?_setEntity_self he rfl
  exact hset

theorem tryMove_gate? {target : TilePos} {solidCheck moved : Bool}
    (h : w.tryMove id target solidCheck = .ok (moved, w')) : w'.gate? = w.gate? := by
  obtain ⟨-, rfl⟩ | ⟨e, he, -, -, rfl⟩ := tryMove_ok h
  · rfl
  · have hset : (((w.leaveTile id e.pos).enterTile id target).setEntity id
        { e with pos := target }.syncPosition).gate? = w.gate? := gate?_setEntity_self he rfl
    rw [gate?_emit, hset]

/-- Nobody but `own` has changed its gate, and nobody has come or gone. -/
structure Elsewhere (own : EntityId) (w w' : World) : Prop where
  others {id : EntityId} : id ≠ own → w'.gate? id = w.gate? id
  live : (w'.gate? own).isSome = (w.gate? own).isSome

theorem Elsewhere.of_eq {own : EntityId} (h : w'.gate? = w.gate?) : Elsewhere own w w' :=
  ⟨fun _ => by rw [h], by rw [h]⟩

theorem Elsewhere.trans {own : EntityId} {w₁ w₂ w₃ : World} (h : Elsewhere own w₁ w₂)
    (h' : Elsewhere own w₂ w₃) : Elsewhere own w₁ w₃ :=
  ⟨fun hi => (h'.others hi).trans (h.others hi), h'.live.trans h.live⟩

theorem Elsewhere.setEntity {e' : Entity} (h : w.entity? id = some e') :
    Elsewhere id w (w.setEntity id e) := by
  constructor
  · intro j hj
    rw [gate?_setEntity, Function.update_of_ne hj]
  · rw [gate?_setEntity, Function.update_self, gate?_of_entity? h]
    rfl

theorem updateEntity_elsewhere {f : Entity → Entity} (h : w.updateEntity id f = .ok w') :
    Elsewhere id w w' := by
  obtain ⟨e, he, rfl⟩ := updateEntity_ok h
  exact .setEntity he

theorem sendCommand_elsewhere {c : Command} {sender : Int32}
    (h : w.sendCommand id c sender = .ok w') : Elsewhere id w w' := by
  obtain ⟨e, he, -, rfl⟩ := sendCommand_ok h
  exact .setEntity he

end Operations

end World

open World

/-- What a built-in may do: leave all gates alone, or make the script pause and change the gate of
its entity. -/
inductive SystemReturn.Restrained (own : EntityId) (w : World) : SystemReturn × World → Prop where

  | still {r : SystemReturn} {w' : World} : w'.gate? = w.gate? → Restrained own w (r, w')

  | pausing {w' : World} : Elsewhere own w w' → Restrained own w (.pause, w')

theorem SystemTable.builtins_restrained {name : String} {f : SystemFunction}
    (h : SystemTable.builtins[name]? = some f) (call : SystemCall) (w : World) :
    SystemReturn.Restrained call.entity w (f call w) := by
  have hd := SystemTable.builtins_deeds h call (.refl call.entity w)
  generalize f call w = x at hd
  cases hd with
  | nothing => exact .still rfl
  | log hu _ => exact .still (appendLog_gate? hu)
  | queue hu _ => exact .pausing (sendCommand_elsewhere hu)
  | move _ hu _ => exact .still (tryMove_gate? hu)
  | give _ hu _ => exact .still (giveItem_gate? hu)
  | shake _ hu _ => exact .still (shake_gate? hu)

/-- What the evaluation of a line does to gates: if nothing has made the script pause, no gate has
changed. -/
structure EvalState.Restrained (own : EntityId) (σ σ' : EvalState) : Prop where
  elsewhere : Elsewhere own σ.world σ'.world
  still : σ'.pause = none → σ.pause = none ∧ σ'.world.gate? = σ.world.gate?

/-- With the built-in functions every line is evaluated so. -/
theorem Scope.admits_restrained {s : Scope} (h : s.env.systems = .builtins) :
    s.Admits (EvalState.Restrained s.entity) where
  refl σ := ⟨.of_eq rfl, fun hp => ⟨hp, rfl⟩⟩
  trans h₁ h₂ := by
    refine ⟨h₁.elsewhere.trans h₂.elsewhere, fun hp => ?_⟩
    obtain ⟨hp, hg⟩ := h₂.still hp
    exact ⟨(h₁.still hp).1, hg.trans (h₁.still hp).2⟩
  call {name f} accessor params σ hf := by
    rw [h] at hf
    have hr := SystemTable.builtins_restrained hf
      { entity := s.entity, authority := s.authority, accessor, params } σ.world
    generalize
      f { entity := s.entity, authority := s.authority, accessor, params } σ.world = x at hr
    cases hr with
    | still hg =>
      refine ⟨.of_eq hg, fun hp => ⟨?_, hg⟩⟩
      unfold EvalState.behind at hp
      dsimp only at hp
      split at hp
      · cases hp
      · exact hp
    | pausing he => exact ⟨he, fun hp => nomatch hp⟩

end TileScript
