import TileScript.Entity.Basic
import TileScript.Json.Reader
import TileScript.Json.Record
import TileScript.Json.Writer

/-! # Saved entities

An entity is saved as a JSON object. Cooldown and queued commands are not saved: a restored entity
may act at once.
-/

namespace TileScript

open Json

/-- A direction by its name, alone or as the name of a null member. -/
def Direction.ofJson? : Json → Option Direction
  | .string s => Direction.ofName? s
  | .object [(name, .null)] => Direction.ofName? name
  | _ => none

namespace TilePos

def toJson (p : TilePos) : Json :=
  .object [("x", .ofInt p.x.toInt), ("y", .ofInt p.y.toInt), ("z", .ofInt p.z.toInt)]

def ofJson? (j : Json) : Option TilePos := do
  let fs ← j.fields? ["x", "y", "z"]
  return ⟨← fs.required? "x" int32?, ← fs.required? "y" int32?, ← fs.required? "z" int32?⟩

end TilePos

namespace Entity

def fieldNames : List String :=
  ["id", "type_id", "owner_id", "pos", "direction", "variables", "storage", "log"]

def toJson (e : Entity) : Json :=
  .object [
    ("id", .ofNat e.id.val.toNat),
    ("type_id", .ofNat e.typeId.toNat),
    ("owner_id", .ofInt e.owner.toInt),
    ("pos", e.pos.toJson),
    ("direction", .string e.direction.name),
    ("variables", ofTable (fun n => .ofInt n.toInt) e.vars),
    ("storage", .array (e.storage.map fun slot => slot.elim .null fun i => .ofNat i.val.toNat)),
    ("log", .array (e.log.map .string))]

def ofJson? (j : Json) : Option Entity := do
  let fs ← j.fields? fieldNames
  return {
    id := ⟨← fs.required? "id" uint32?⟩
    typeId := ← fs.required? "type_id" uint32?
    owner := ← fs.required? "owner_id" int32?
    pos := ← fs.required? "pos" TilePos.ofJson?
    direction := ← fs.required? "direction" Direction.ofJson?
    vars := ← fs.required? "variables" (table? int64?)
    storage := ← fs.required? "storage" (list? (option? fun v => (uint32? v).map ItemId.mk))
    log := ← fs.required? "log" (list? string?) }

def save (e : Entity) : String := e.toJson.compact

def load? (text : String) : Option Entity := (parse? text).bind ofJson?

end Entity

end TileScript
