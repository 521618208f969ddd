import TileScript.Catalog.Basic
import TileScript.Json.Reader
import TileScript.Json.Record
import TileScript.Json.Writer

/-! # Catalog documents

A catalog is stored as a JSON object with one member `types`. Fields that describe a type beyond its
number and name may be left out.
-/

namespace TileScript

open Json

/-- Types that have a JSON form. -/
class JsonForm (α : Type) where
  toJson : α → Json
  ofJson? : Json → Option α

namespace EntityType

def fieldNames : List String :=
  ["id", "name", "description", "solid", "size", "storage_slots", "variables", "functions"]

def toJson (t : EntityType) : Json :=
  .object [
    ("id", .ofNat t.id.toNat),
    ("name", .string t.name),
    ("description", .string t.description),
    ("solid", .bool t.solid),
    ("size", .ofNat t.size.toNat),
    ("storage_slots", .ofNat t.storageSlots),
    ("variables", ofTable (fun n => .ofInt n.toInt) t.vars),
    ("functions", .array (t.functions.map .string))]

def ofJson? (j : Json) : Option EntityType := do
  let fs ← j.fields? fieldNames
  return {
    id := ← fs.required? "id" uint32?
    name := ← fs.required? "name" string?
    description := ← fs.default? "description" string? ""
    solid := ← fs.default? "solid" bool? false
    size := ← fs.default? "size" uint32? 1
    storageSlots := ← fs.default? "storage_slots" nat64? 0
    vars := ← fs.default? "variables" (table? int64?) {}
    functions := ← fs.default? "functions" (list? string?) [] }

instance : JsonForm EntityType := ⟨toJson, ofJson?⟩

end EntityType

namespace ItemType

def fieldNames : List String := ["id", "name", "description", "functions"]

def toJson (t : ItemType) : Json :=
  .object [
    ("id", .ofNat t.id.toNat),
    ("name", .string t.name),
    ("description", .string t.description),
    ("functions", .array (t.functions.map .string))]

def ofJson? (j : Json) : Option ItemType := do
  let fs ← j.fields? fieldNames
  return {
    id := ← fs.required? "id" uint32?
    name := ← fs.required? "name" string?
    description := ← fs.default? "description" string? ""
    functions := ← fs.default? "functions" (list? string?) [] }

instance : JsonForm ItemType := ⟨toJson, ofJson?⟩

end ItemType

namespace Catalog

variable {α : Type} [JsonForm α]

def toJson (c : Catalog α) : Json := .object [("types", .array (c.types.map JsonForm.toJson))]

def ofJson? (j : Json) : Option (Catalog α) := do
  let fs ← j.fields? ["types"]
  return ⟨← fs.required? "types" (list? JsonForm.ofJson?)⟩

/-- The text a catalog is saved as. -/
def save (c : Catalog α) : String := c.toJson.pretty

/-- The catalog a text holds. -/
def load? (text : String) : Option (Catalog α) := (parse? text).bind ofJson?

end Catalog

end TileScript
