import Std.Data.ExtTreeMap
import TileScript.Id
import TileScript.Tile

/-! # Entities

An entity stands on a tile and looks in a direction. It has integer variables, storage slots and a
visible log. Its cooldown and its queued commands decide when scripts on it may act.
-/

namespace TileScript

/-- The owner of entities that belong to nobody else, and the authority that may do everything. -/
def serverOwner : Int32 := -1

/-- What an entity is told to do; it carries out at most one command per tick. -/
inductive Command where
  /-- Turn, and step onto the next tile if it is free. -/
  | move (direction : Direction)
  deriving DecidableEq, Repr

structure Entity where
  id : EntityId
  typeId : UInt32
  owner : Int32
  pos : TilePos
  direction : Direction := .up
  vars : Std.ExtTreeMap String Int64 := {}
  storage : List (Option ItemId) := []
  /-- Visible lines, oldest first. -/
  log : List String := []
  cooldown : Nat := 0
  commands : List Command := []
  deriving DecidableEq

namespace Entity

/-- The entity with its variables `x`, `y` and `z` set to where it stands. -/
def syncPosition (e : Entity) : Entity :=
  { e with
    vars := ((e.vars.insert "x" (.ofInt e.pos.x.toInt)).insert "y"
      (.ofInt e.pos.y.toInt)).insert "z" (.ofInt e.pos.z.toInt) }

/-- Whether scripts on the entity may run. -/
def canAct (e : Entity) : Bool := e.cooldown == 0 && e.commands.isEmpty

/-- The cooldown raised to `ticks`, but never above `max`. -/
def extendCooldown (e : Entity) (ticks max : Nat) : Entity :=
  { e with cooldown := min (Nat.max e.cooldown ticks) max }

def pushCommand (e : Entity) (c : Command) : Entity := { e with commands := e.commands ++ [c] }

/-- The log with one more line, without its oldest lines past `max`; zero is no limit. -/
def pushLog (e : Entity) (message : String) (max : Nat) : Entity :=
  let log := e.log ++ [message]
  { e with log := if 0 < max then log.drop (log.length - max) else log }

def hasStorage (e : Entity) : Bool := !e.storage.isEmpty

def itemInSlot? (e : Entity) (slot : Nat) : Option ItemId := e.storage[slot]?.join

def holds (e : Entity) (item : ItemId) : Bool := e.storage.contains (some item)

/-- The first slot without an item. -/
def freeSlot? (e : Entity) : Option Nat := e.storage.findIdx? Option.isNone

def itemCount (e : Entity) : Nat := e.storage.countP Option.isSome

end Entity

end TileScript
