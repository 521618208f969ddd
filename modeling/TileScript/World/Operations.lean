import TileScript.World.Basic

/-! # Changing the world

Each operation yields the changed world or the reason for its refusal. An entity changes its tile
only by `tryMove`, which keeps the index.
-/

namespace TileScript.World

/-- Adds an entity as it is, for instance a restored one. New numbers start above its number. -/
def insertEntity (w : World) (e : Entity) : Except WorldError World :=
  if (w.entityTypes.get? e.typeId).isNone then .error (.unknownEntityType e.typeId)
  else
    let w := { w with nextEntity := if w.nextEntity ≤ e.id.val then e.id.val + 1 else w.nextEntity }
    .ok ((w.enterTile e.id e.pos).setEntity e.id e.syncPosition)

/-- Adds a new entity with the variables and the slots of its type. -/
def spawn (w : World) (typeId : UInt32) (pos : TilePos) (owner : Int32) :
    Except WorldError (EntityId × World) :=
  match w.entityTypes.get? typeId with
  | none => .error (.unknownEntityType typeId)
  | some t => do
    let id : EntityId := ⟨w.nextEntity⟩
    let w ← w.insertEntity {
      id, typeId, owner, pos
      vars := t.vars
      storage := List.replicate t.storageSlots none }
    return (id, w)

def removeEntity (w : World) (id : EntityId) : Except WorldError (Entity × World) := do
  let e ← w.entity id
  return (e, { w with entities := w.entities.erase id }.leaveTile id e.pos)

/-- Moves an entity, unless `solidCheck` is asked for and the tile is solid. Yields whether it moved. -/
def tryMove (w : World) (id : EntityId) (target : TilePos) (solidCheck : Bool) :
    Except WorldError (Bool × World) := do
  let e ← w.entity id
  if solidCheck && w.isSolid target then return (false, w)
  else
    let w := (w.leaveTile id e.pos).enterTile id target
    let w := w.setEntity id { e with pos := target }.syncPosition
    return (true, w.emit (.moved id e.pos target))

/-- Replaces the state of an entity by a function of it. -/
def updateEntity (w : World) (id : EntityId) (f : Entity → Entity) : Except WorldError World := do
  let e ← w.entity id
  return w.setEntity id (f e)

def setDirection (w : World) (id : EntityId) (d : Direction) : Except WorldError World :=
  w.updateEntity id fun e => { e with direction := d }

/-- Queues a command; only the owner of an entity may. -/
def sendCommand (w : World) (id : EntityId) (c : Command) (sender : Int32) :
    Except WorldError World := do
  let e ← w.entity id
  if e.owner ≠ sender then .error (.notAuthorized id sender e.owner)
  else w.updateEntity id (·.pushCommand c)

def extendCooldown (w : World) (id : EntityId) (ticks : Nat) : Except WorldError World :=
  w.updateEntity id (·.extendCooldown ticks w.config.maxCooldown)

/-- Appends a line to the visible log of an entity. -/
def appendLog (w : World) (id : EntityId) (message : String) : Except WorldError World := do
  let w ← w.updateEntity id (·.pushLog message w.config.maxLogLines)
  return w.emit (.logged id message)

def shake (w : World) (id : EntityId) (seconds : Binary64) : Except WorldError World := do
  let _ ← w.entity id
  return w.emit (.shaken id seconds)

/-- Puts a new item into the first free slot of an entity. -/
def giveItem (w : World) (id : EntityId) (itemType : UInt32) : Except WorldError (ItemId × World) :=
  if (w.itemTypes.get? itemType).isNone then .error (.unknownItemType itemType)
  else do
    let e ← w.entity id
    if !e.hasStorage then .error (.noStorage id)
    else
      match e.freeSlot? with
      | none => .error (.inventoryFull id)
      | some slot =>
        let item : ItemId := ⟨w.nextItem⟩
        let w := { w with
          entities := w.entities.insert id { e with storage := e.storage.set slot (some item) }
          items := w.items.insert item ⟨item, itemType⟩
          nextItem := w.nextItem + 1 }
        return (item, w.emit (.inventoryChanged id item slot))

/-- Carries out a command: turn, then step if the next tile is not solid. A step costs a cooldown. -/
def executeCommand (w : World) (id : EntityId) (e : Entity) : Command → World
  | .move d =>
    let w := w.setEntity id { e with direction := d }
    match w.tryMove id (e.pos.step d) true with
    | .ok (true, moved) =>
      match moved.extendCooldown id w.config.ticksPerMovement with
      | .ok cooled => cooled
      | .error _ => moved
    | .ok (false, _) | .error _ => w

/-- One tick of one entity: a cooldown runs down, or else the next command is carried out. -/
def tickEntity (w : World) (id : EntityId) : World :=
  match w.entity? id with
  | none => w
  | some e =>
    if 0 < e.cooldown then
      w.setEntity id { e with cooldown := e.cooldown - 1 }
    else
      match e.commands with
      | [] => w
      | c :: rest => w.executeCommand id { e with commands := rest } c

/-- One tick of every entity, in the order of their numbers. -/
def tickEntities (w : World) : World := w.entities.keys.foldl tickEntity w

end TileScript.World
