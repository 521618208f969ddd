import Mathlib.Logic.Function.Basic
import Mathlib.Logic.Relation
import TileScript.World.Operations

/-! # What changes a world

Operations that succeed, read backwards; and the few ways in which a world changes while nobody
comes or goes and no item is made. The turn of the entities is a chain of these.
-/

namespace TileScript.World

section Results

variable {ε α β : Type} {x : Except ε α} {b : β}

theorem of_bind_ok {f : α → Except ε β} (h : x >>= f = .ok b) : ∃ a, x = .ok a ∧ f a = .ok b := by
  cases x with
  | error => cases h
  | ok a => exact ⟨a, rfl, h⟩

theorem of_map_ok {f : α → β} (h : x.map f = .ok b) : ∃ a, x = .ok a ∧ f a = b := by
  cases x with
  | error => cases h
  | ok a => exact ⟨a, rfl, Except.ok.inj h⟩

end Results

variable {w w' : World} {id : EntityId} {e : Entity}

section Inversion

theorem entity?_of_entity (h : w.entity id = .ok e) : w.entity? id = some e := by
  unfold World.entity at h
  split at h
  · next hs =>
    cases h
    exact hs
  · cases h

theorem entity?_setEntity (w : World) (id : EntityId) (e : Entity) :
    (w.setEntity id e).entity? = Function.update w.entity? id (some e) := by
  funext j
  unfold entity? setEntity
  simp only [Std.ExtTreeMap.getElem?_insert, Std.LawfulEqCmp.compare_eq_iff_eq,
    Function.update_apply, eq_comm (a := id)]

theorem updateEntity_ok {f : Entity → Entity} (h : w.updateEntity id f = .ok w') :
    ∃ e, w.entity? id = some e ∧ w' = w.setEntity id (f e) := by
  obtain ⟨e, he, h⟩ := of_bind_ok h
  cases h
  exact ⟨e, entity?_of_entity he, rfl⟩

theorem sendCommand_ok {c : Command} {sender : Int32} (h : w.sendCommand id c sender = .ok w') :
    ∃ e, w.entity? id = some e ∧ e.owner = sender ∧ w' = w.setEntity id (e.pushCommand c) := by
  obtain ⟨e, he, h⟩ := of_bind_ok h
  have he := entity?_of_entity he
  split at h
  · cases h
  · next ho =>
    obtain ⟨e', he', rfl⟩ := updateEntity_ok h
    obtain rfl := Option.some.inj (he.symm.trans he')
    exact ⟨e, he, Decidable.not_not.1 ho, rfl⟩

theorem appendLog_ok {message : String} (h : w.appendLog id message = .ok w') :
    ∃ e, w.entity? id = some e ∧
      w' = (w.setEntity id (e.pushLog message w.config.maxLogLines)).emit (.logged id message) := by
  obtain ⟨w₁, hu, h⟩ := of_bind_ok h
  cases h
  obtain ⟨e, he, rfl⟩ := updateEntity_ok hu
  exact ⟨e, he, rfl⟩

theorem shake_ok {seconds : Binary64} (h : w.shake id seconds = .ok w') :
    w' = w.emit (.shaken id seconds) := by
  obtain ⟨e, -, h⟩ := of_bind_ok h
  cases h
  rfl

theorem giveItem_ok {itemType : UInt32} {item : ItemId}
    (h : w.giveItem id itemType = .ok (item, w')) :
    ∃ e slot, w.entity? id = some e ∧ e.freeSlot? = some slot ∧ item = ⟨w.nextItem⟩ ∧
      w' = { w.setEntity id { e with storage := e.storage.set slot (some item) } with
        items := w.items.insert item ⟨item, itemType⟩
        nextItem := w.nextItem + 1 }.emit (.inventoryChanged id item slot) := by
  unfold giveItem at h
  split at h
  · cases h
  · obtain ⟨e, he, h⟩ := of_bind_ok h
    split at h
    · cases h
    · split at h
      · cases h
      · next slot hs =>
        cases h
        exact ⟨e, slot, entity?_of_entity he, hs, rfl, rfl⟩

theorem tryMove_ok {target : TilePos} {solidCheck moved : Bool}
    (h : w.tryMove id target solidCheck = .ok (moved, w')) :
    (moved = false ∧ w' = w) ∨ ∃ e, w.entity? id = some e ∧ moved = true ∧
      (solidCheck = true → w.isSolid target = false) ∧
      w' = (((w.leaveTile id e.pos).enterTile id target).setEntity id
        { e with pos := target }.syncPosition).emit (.moved id e.pos target) := by
  obtain ⟨e, he, h⟩ := of_bind_ok h
  split at h
  · cases h
    exact .inl ⟨rfl, rfl⟩
  · next hs =>
    cases h
    refine .inr ⟨e, entity?_of_entity he, rfl, ?_, rfl⟩
    rintro rfl
    simpa using hs

theorem insertEntity_ok (h : w.insertEntity e = .ok w') :
    w' = { (w.enterTile e.id e.pos).setEntity e.id e.syncPosition with
      nextEntity := if w.nextEntity ≤ e.id.val then e.id.val + 1 else w.nextEntity } := by
  unfold insertEntity at h
  split at h
  · cases h
  · cases h
    rfl

theorem removeEntity_ok (h : w.removeEntity id = .ok (e, w')) : w.entity? id = some e ∧
    w' = { w with entities := w.entities.erase id }.leaveTile id e.pos := by
  obtain ⟨e', he, h⟩ := of_bind_ok h
  cases h
  exact ⟨entity?_of_entity he, rfl⟩

end Inversion

/-- A change in which nobody comes or goes and no item is made. Steps onto solid tiles are left out
if `solidCheck` asks for that. -/
inductive Change (solidCheck : Bool) (w : World) : World → Prop where

  | clock (n : Nat) : Change solidCheck w { w with tick := n }

  | act {id : EntityId} {e : Entity} (direction : Direction) (cooldown : Nat)
      (commands : List Command) : w.entity? id = some e →
      Change solidCheck w (w.setEntity id { e with direction, cooldown, commands })

  | log {id : EntityId} {e : Entity} (message : String) : w.entity? id = some e →
      Change solidCheck w
        ((w.setEntity id (e.pushLog message w.config.maxLogLines)).emit (.logged id message))

  | shake (id : EntityId) (seconds : Binary64) : Change solidCheck w (w.emit (.shaken id seconds))

  | fail (id : EntityId) (message : String) :
      Change solidCheck w (w.emit (.scriptFailed id message))

  | move {id : EntityId} {e : Entity} (target : TilePos) : w.entity? id = some e →
      (solidCheck = true → w.isSolid target = false) →
      Change solidCheck w ((((w.leaveTile id e.pos).enterTile id target).setEntity id
        { e with pos := target }.syncPosition).emit (.moved id e.pos target))

/-- Such changes one after the other. -/
abbrev Changes (solidCheck : Bool) : World → World → Prop :=
  Relation.ReflTransGen (Change solidCheck)

section Operations

variable {solidCheck : Bool}

theorem change_of_extendCooldown {ticks : Nat} (h : w.extendCooldown id ticks = .ok w') :
    Change solidCheck w w' := by
  obtain ⟨e, he, rfl⟩ := updateEntity_ok h
  exact .act e.direction _ e.commands he

theorem change_of_setDirection {d : Direction} (h : w.setDirection id d = .ok w') :
    Change solidCheck w w' := by
  obtain ⟨e, he, rfl⟩ := updateEntity_ok h
  exact .act d e.cooldown e.commands he

theorem change_of_sendCommand {c : Command} {sender : Int32}
    (h : w.sendCommand id c sender = .ok w') : Change solidCheck w w' := by
  obtain ⟨e, he, -, rfl⟩ := sendCommand_ok h
  exact .act e.direction e.cooldown _ he

theorem change_of_appendLog {message : String} (h : w.appendLog id message = .ok w') :
    Change solidCheck w w' := by
  obtain ⟨e, he, rfl⟩ := appendLog_ok h
  exact .log message he

theorem change_of_shake {seconds : Binary64} (h : w.shake id seconds = .ok w') :
    Change solidCheck w w' := by
  rw [shake_ok h]
  exact .shake id seconds

theorem changes_of_tryMove {target : TilePos} {moved : Bool}
    (h : w.tryMove id target solidCheck = .ok (moved, w')) : Changes solidCheck w w' := by
  obtain ⟨-, rfl⟩ | ⟨e, he, -, hs, rfl⟩ := tryMove_ok h
  · exact .refl
  · exact .single (.move target he hs)

/-- A cooldown runs down, or a command is carried out. -/
theorem tickEntity_changes (w : World) (id : EntityId) : Changes true w (w.tickEntity id) := by
  unfold tickEntity
  cases he : w.entity? id with
  | none => exact .refl
  | some e =>
    dsimp only
    split
    · exact .single (.act e.direction _ e.commands he)
    · split
      · exact .refl
      · next c rest _ =>
        cases c with
        | move d =>
          have hturn : Changes true w
              (w.setEntity id { e with commands := rest, direction := d }) :=
            .single (.act d e.cooldown rest he)
          unfold executeCommand
          dsimp only
          split
          · next moved hm =>
            have hmove := hturn.trans (changes_of_tryMove hm)
            split
            · next cooled hc => exact hmove.tail (change_of_extendCooldown hc)
            · exact hmove
          · exact hturn
          · exact hturn

theorem tickEntities_changes (w : World) : Changes true w w.tickEntities := by
  have h (ids : List EntityId) (w : World) : Changes true w (ids.foldl tickEntity w) := by
    induction ids generalizing w with
    | nil => exact .refl
    | cons id ids ih => exact (tickEntity_changes w id).trans (ih _)
  exact h _ w

end Operations

end TileScript.World
