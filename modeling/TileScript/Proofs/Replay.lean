import Mathlib.Data.List.DropRight
import TileScript.Proofs.Conduct

/-! # Events replay a run

Where entities stand, their variables, what they hold and what they have logged: with the built-in
functions this changes only together with an event, and the event says how. So the events of a run,
applied in order to what was at its start, yield what is at its end.
-/

namespace TileScript

open World

/-- What events tell of an entity. -/
structure Record where
  pos : TilePos
  vars : Std.ExtTreeMap String Int64
  storage : List (Option ItemId)
  log : List String
  deriving DecidableEq

/-- What an event makes of the record of its entity. A log keeps `maxLines` lines; zero is no
limit. -/
def EventKind.revise (maxLines : Nat) (r : Record) : EventKind → Record
  | .moved _ _ target =>
    { r with
      pos := target
      vars := ((r.vars.insert "x" (.ofInt target.x.toInt)).insert "y"
        (.ofInt target.y.toInt)).insert "z" (.ofInt target.z.toInt) }
  | .inventoryChanged _ item slot => { r with storage := r.storage.set slot (some item) }
  | .logged _ message =>
    let log := r.log ++ [message]
    { r with log := if maxLines = 0 then log else log.rtake maxLines }
  | .shaken _ _ | .scriptFailed _ _ => r

/-- The records of all entities behind an event. -/
def Event.replay (maxLines : Nat) (records : EntityId → Option Record) (e : Event) :
    EntityId → Option Record :=
  Function.update records e.kind.entity ((records e.kind.entity).map (e.kind.revise maxLines))

def Entity.record (e : Entity) : Record := ⟨e.pos, e.vars, e.storage, e.log⟩

namespace World

variable {w w' w₁ w₂ w₃ : World} {id : EntityId} {e e' : Entity}

/-- The record of an entity, if there is one with this number. -/
def record? (w : World) (id : EntityId) : Option Record := (w.entity? id).map Entity.record

/-- A change of a world that its events tell, if they are all kept. -/
structure Replayed (w w' : World) : Prop where
  config : w'.config = w.config
  limit : w'.events.limit = w.events.limit
  events : w.events.limit = 0 → ∃ events : List Event,
    w'.events.events.toList = w.events.events.toList ++ events ∧
    events.foldl (Event.replay w.config.maxLogLines) w.record? = w'.record?

theorem record?_setEntity (w : World) (id : EntityId) (e : Entity) :
    (w.setEntity id e).record? = Function.update w.record? id (some e.record) := by
  funext j
  unfold record?
  rw [entity?_setEntity, Function.update_apply, Function.update_apply]
  split <;> rfl

theorem record?_of_entity? (h : w.entity? id = some e) : w.record? id = some e.record := by
  rw [record?, h]
  rfl

namespace Replayed

theorem trans (h : Replayed w₁ w₂) (h' : Replayed w₂ w₃) : Replayed w₁ w₃ where
  config := h'.config.trans h.config
  limit := h'.limit.trans h.limit
  events hl := by
    obtain ⟨es, hes, hr⟩ := h.events hl
    obtain ⟨es', hes', hr'⟩ := h'.events (h.limit.trans hl)
    refine ⟨es ++ es', ?_, ?_⟩
    · rw [hes', hes, List.append_assoc]
    · rw [List.foldl_append, hr, ← h.config, hr']

/-- A change that nobody's record shows. -/
theorem silent (hc : w'.config = w.config) (he : w'.events = w.events)
    (hr : w'.record? = w.record?) : Replayed w w' where
  config := hc
  limit := by rw [he]
  events _ := ⟨[], by rw [he, List.append_nil], hr.symm⟩

theorem refl (w : World) : Replayed w w := silent rfl rfl rfl

/-- A change with the event that tells it. -/
theorem told {kind : EventKind} (hc : w'.config = w.config) (he : w'.events = w.events)
    (hr : w'.record? = Event.replay w.config.maxLogLines w.record? ⟨w'.tick, kind⟩) :
    Replayed w (w'.emit kind) where
  config := hc
  limit := by
    rw [← he]
    exact EventLog.limit_push ..
  events hl := by
    refine ⟨[⟨w'.tick, kind⟩], ?_, hr.symm⟩
    rw [← he] at hl ⊢
    exact EventLog.toList_push_of_unlimited _ _ hl

theorem setEntity (h : w.entity? id = some e) (he : e'.record = e.record) :
    Replayed w (w.setEntity id e') := by
  refine silent rfl rfl ?_
  rw [record?_setEntity, he, ← record?_of_entity? h, Function.update_eq_self]

/-- A change of one record with the event that tells it. -/
theorem revised (kind : EventKind) (h : w.entity? kind.entity = some e)
    (hc : w'.config = w.config) (he : w'.events = w.events)
    (hr : w'.record? = Function.update w.record? kind.entity
      (some (kind.revise w.config.maxLogLines e.record))) : Replayed w (w'.emit kind) := by
  refine told hc he ?_
  rw [hr, Event.replay, record?_of_entity? h]
  rfl

/-- An event that tells no change. -/
theorem emit (w : World) {kind : EventKind} (h : ∀ r, kind.revise w.config.maxLogLines r = r) :
    Replayed w (w.emit kind) := by
  refine told rfl rfl ?_
  rw [Event.replay, funext h]
  simp

end Replayed

theorem pushLog_record (e : Entity) (id : EntityId) (message : String) (maxLines : Nat) :
    (e.pushLog message maxLines).record =
      (EventKind.logged id message).revise maxLines e.record := by
  unfold Entity.pushLog Entity.record EventKind.revise
  by_cases hz : maxLines = 0
  · simp [hz]
  · simp [hz, Nat.pos_of_ne_zero hz, List.rtake]

theorem Change.replayed {solidCheck : Bool} (h : Change solidCheck w w') : Replayed w w' := by
  cases h with
  | clock => exact .silent rfl rfl rfl
  | act _ _ _ he => exact .setEntity he rfl
  | @log id e message he =>
    refine .revised (.logged id message) he rfl rfl ?_
    rw [record?_setEntity, pushLog_record e id]
    rfl
  | shake | fail => exact .emit w fun _ => rfl
  | @move id e target he _ =>
    exact .revised (.moved id e.pos target) he rfl rfl (record?_setEntity _ id _)

theorem Deed.replayed (h : Deed w w') : Replayed w w' := by
  cases h with
  | change hc => exact hc.replayed
  | @give id itemType item _ hg =>
    obtain ⟨e, slot, he, -, -, rfl⟩ := giveItem_ok hg
    exact .revised (.inventoryChanged id item slot) he rfl rfl
      (record?_setEntity w id { e with storage := e.storage.set slot (some item) })

theorem Deeds.replayed (h : Deeds w w') : Replayed w w' := by
  induction h with
  | refl => exact .refl w
  | tail _ hd ih => exact ih.trans hd.replayed

end World

namespace Simulation

variable {m m' : Simulation} {steps : Nat}

theorem run_replayed {n : Nat} (hm : m.systems = .builtins) (h : m.run steps n = some m') :
    Replayed m.world m'.world := (run_deeds hm h).replayed

/-- In every run of a simulation with the built-in functions and an unlimited log of events, the
events of the run lead from the records at its start to the records at its end. -/
theorem events_replay_run {n : Nat} (hm : m.systems = .builtins)
    (hl : m.world.events.limit = 0) (h : m.run steps n = some m') :
    ∃ events : List Event,
      m'.world.events.events.toList = m.world.events.events.toList ++ events ∧
      events.foldl (Event.replay m.world.config.maxLogLines) m.world.record? = m'.world.record? :=
  (run_replayed hm h).events hl

section Example

/-- Somebody in front of a door who speaks, and steps aside. -/
def doorSimulation : Simulation where
  world := doorWorld
  source := keyEnvironment.source
  functions := ⟨[]⟩
  typeFunctions := {}
  scheduler := { fibers := {(0, .start 0 ⟨0⟩ 7 "log(1)\nleft()")}, nextId := 1 }

/-- In two ticks a line is logged and a step is made, and the events tell it. -/
theorem events_replay_run_door :
    doorWorld.events.limit = 0 ∧ ∃ m', doorSimulation.run 5 2 = some m' ∧
      m'.world.events.events.toList =
        [⟨1, .logged ⟨0⟩ "1"⟩, ⟨1, .moved ⟨0⟩ ⟨0, 0, 0⟩ ⟨-1, 0, 0⟩⟩] ∧
      m'.world.events.events.toList.foldl (Event.replay 10) doorWorld.record? =
        m'.world.record? := by
  have hl : doorSimulation.world.events.limit = 0 := rfl
  have hrun : (doorSimulation.run 5 2).map (·.world.events.events.toList) = some
      [⟨1, .logged ⟨0⟩ "1"⟩, ⟨1, .moved ⟨0⟩ ⟨0, 0, 0⟩ ⟨-1, 0, 0⟩⟩] := by decide +kernel
  obtain ⟨m', hm', he⟩ := Option.map_eq_some_iff.1 hrun
  obtain ⟨events, hes, hr⟩ := events_replay_run rfl hl hm'
  obtain rfl : events = m'.world.events.events.toList := hes.symm
  exact ⟨hl, m', hm', he, hr⟩

end Example

end Simulation

end TileScript
