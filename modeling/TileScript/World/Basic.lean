import Std.Data.ExtTreeMap
import TileScript.Catalog.Basic
import TileScript.Entity.Basic
import TileScript.Error
import TileScript.Event
import TileScript.Item

/-! # The world

Entities and items by number, the catalogs of their types, an index of who stands on which tile, and
the log of events. The index lists the entities of a tile in the order of their arrival.
-/

namespace TileScript

structure WorldConfig where
  /-- The cooldown after a step. -/
  ticksPerMovement : Nat := 8
  maxCooldown : Nat := 100
  /-- Lines kept in the log of an entity; zero is no limit. -/
  maxLogLines : Nat := 10
  /-- Events kept; zero is no limit. -/
  maxEvents : Nat := 0
  deriving DecidableEq, Repr

structure World where
  config : WorldConfig := {}
  entityTypes : Catalog EntityType := {}
  itemTypes : Catalog ItemType := {}
  entities : Std.ExtTreeMap EntityId Entity := {}
  items : Std.ExtTreeMap ItemId Item := {}
  tiles : Std.ExtTreeMap TilePos (List EntityId) := {}
  nextEntity : UInt32 := 0
  nextItem : UInt32 := 0
  events : EventLog := {}
  tick : Nat := 0
  deriving DecidableEq

namespace World

/-- A world without entities. -/
def ofCatalogs (entityTypes : Catalog EntityType) (itemTypes : Catalog ItemType)
    (config : WorldConfig := {}) : World :=
  { config, entityTypes, itemTypes, events := { limit := config.maxEvents } }

def entity? (w : World) (id : EntityId) : Option Entity := w.entities[id]?

/-- The entity, or the error that it does not exist. -/
def entity (w : World) (id : EntityId) : Except WorldError Entity :=
  match w.entities[id]? with
  | some e => .ok e
  | none => .error (.entityNotFound id)

def item? (w : World) (id : ItemId) : Option Item := w.items[id]?

def entityTypeOf? (w : World) (id : EntityId) : Option EntityType :=
  (w.entity? id).bind fun e => w.entityTypes.get? e.typeId

def itemTypeOf? (w : World) (id : ItemId) : Option ItemType :=
  (w.item? id).bind fun i => w.itemTypes.get? i.typeId

/-- Entities in the order of their numbers. -/
def entityList (w : World) : List Entity := w.entities.values

/-- Who stands on a tile, in order of arrival. -/
def entitiesAt (w : World) (p : TilePos) : List EntityId := w.tiles.getD p []

def entityAt? (w : World) (p : TilePos) : Option EntityId := (w.entitiesAt p).head?

/-- Whether somebody of a solid type stands on a tile. -/
def isSolid (w : World) (p : TilePos) : Bool :=
  (w.entitiesAt p).any fun id => (w.entityTypeOf? id).any (·.solid)

/-- Records an event at the current tick. -/
def emit (w : World) (kind : EventKind) : World :=
  { w with events := w.events.push ⟨w.tick, kind⟩ }

/-- Stores the state of an entity. -/
def setEntity (w : World) (id : EntityId) (e : Entity) : World :=
  { w with entities := w.entities.insert id e }

/-- Adds an entity to the end of a tile. -/
def enterTile (w : World) (id : EntityId) (p : TilePos) : World :=
  { w with tiles := w.tiles.insert p (w.entitiesAt p ++ [id]) }

/-- Takes an entity off a tile. -/
def leaveTile (w : World) (id : EntityId) (p : TilePos) : World :=
  let rest := (w.entitiesAt p).filter (· != id)
  { w with tiles := if rest.isEmpty then w.tiles.erase p else w.tiles.insert p rest }

end World

end TileScript
