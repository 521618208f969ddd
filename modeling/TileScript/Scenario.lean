import TileScript.Catalog.Document
import TileScript.Entity.Document
import TileScript.Simulation

/-! # Scenarios

A scenario lists the types of a world, the entities to place in it, and the scripts to start on
them. It is read from a JSON document.
-/

namespace TileScript

open Json

/-- An entity to place, with the names of the items it holds. -/
structure EntitySpec where
  typeName : String
  pos : TilePos
  direction : Direction := .up
  owner : Int32 := serverOwner
  /-- The name of a behavior to start. -/
  behavior : Option String := none
  /-- The text of a script to start. -/
  source : Option String := none
  items : List String := []
  deriving DecidableEq, Repr

structure Scenario where
  name : String := ""
  entityTypes : List EntityType
  itemTypes : List ItemType := []
  entities : List EntitySpec
  deriving DecidableEq

/-- Why the entities of a scenario could not be placed. -/
inductive ScenarioError where
  | unknownEntityType (name : String)
  | unknownItemType (name : String)
  | refusedEntity (e : WorldError)
  /-- An entity of the named type could not take an item. -/
  | refusedItem (typeName : String) (e : WorldError)
  deriving DecidableEq, Repr

def ScenarioError.message : ScenarioError → String
  | .unknownEntityType n => "unknown entity type '" ++ n ++ "'"
  | .unknownItemType n => "unknown item type '" ++ n ++ "'"
  | .refusedEntity e => e.message
  | .refusedItem t e => t ++ ": " ++ e.message

namespace EntitySpec

def fieldNames : List String :=
  ["type", "position", "direction", "owner", "script", "source", "items"]

/-- A position as an array of its three coordinates. -/
def position? : Json → Option TilePos
  | .array [x, y, z] => do return ⟨← x.int32?, ← y.int32?, ← z.int32?⟩
  | _ => none

def ofJson? (j : Json) : Option EntitySpec := do
  let fs ← j.fields? fieldNames
  return {
    typeName := ← fs.required? "type" string?
    pos := ← fs.required? "position" position?
    direction := ← fs.default? "direction" Direction.ofJson? .up
    owner := ← fs.default? "owner" int32? serverOwner
    behavior := ← fs.default? "script" (option? string?) none
    source := ← fs.default? "source" (option? string?) none
    items := ← fs.default? "items" (list? string?) [] }

/-- Puts a new item of a named type into an entity. -/
def giveItem (spec : EntitySpec) (id : EntityId) (w : World) (itemName : String) :
    Except ScenarioError World :=
  match w.itemTypes.find? itemName with
  | none => .error (.unknownItemType itemName)
  | some t =>
    match w.giveItem id t.id with
    | .ok (_, w) => .ok w
    | .error e => .error (.refusedItem spec.typeName e)

/-- Places an entity with its items. -/
def place (w : World) (spec : EntitySpec) : Except ScenarioError (EntityId × World) :=
  match w.entityTypes.find? spec.typeName with
  | none => .error (.unknownEntityType spec.typeName)
  | some t => do
    let (id, w) ← (w.spawn t.id spec.pos spec.owner).mapError .refusedEntity
    let w ← (w.setDirection id spec.direction).mapError .refusedEntity
    let w ← spec.items.foldlM (spec.giveItem id) w
    return (id, w)

/-- Starts the scripts of a placed entity. Yields how many it started. -/
def attachScripts (spec : EntitySpec) (id : EntityId) (s : Simulation) :
    Except SetupError (Nat × Simulation) := do
  let (n, s) ←
    match spec.behavior with
    | some name => do
      let (_, s) ← s.attachBehavior id name
      pure (1, s)
    | none => pure (0, s)
  match spec.source with
  | some source =>
    let (_, s) ← s.attach id source
    return (n + 1, s)
  | none => return (n, s)

end EntitySpec

namespace Scenario

def fieldNames : List String := ["name", "entity_types", "item_types", "entities"]

def ofJson? (j : Json) : Option Scenario := do
  let fs ← j.fields? fieldNames
  return {
    name := ← fs.default? "name" string? ""
    entityTypes := ← fs.required? "entity_types" (list? EntityType.ofJson?)
    itemTypes := ← fs.default? "item_types" (list? ItemType.ofJson?) []
    entities := ← fs.required? "entities" (list? EntitySpec.ofJson?) }

/-- The scenario a text holds. -/
def load? (text : String) : Option Scenario := (parse? text).bind ofJson?

/-- A world with the entities of a scenario, and each entity's part of the scenario with its
number. -/
def build (s : Scenario) : Except ScenarioError (World × List (EntitySpec × EntityId)) :=
  s.entities.foldlM (fun (w, placed) spec => do
      let (id, w) ← spec.place w
      return (w, placed ++ [(spec, id)]))
    (World.ofCatalogs ⟨s.entityTypes⟩ ⟨s.itemTypes⟩, [])

end Scenario

end TileScript
