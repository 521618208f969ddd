import Std.Data.ExtTreeMap
import TileScript.Text.Search

/-! # Type catalogs

Entities and items belong to types, and the types of a world are listed in catalogs. Of types with
equal numbers or names the first one listed counts.
-/

namespace TileScript

/-- A kind of entity. -/
structure EntityType where
  id : UInt32
  name : String
  description : String := ""
  /-- Whether an entity of the type keeps others off its tile. -/
  solid : Bool := false
  size : UInt32 := 1
  /-- The number of inventory slots of a new entity. -/
  storageSlots : Nat := 0
  /-- The variables of a new entity. -/
  vars : Std.ExtTreeMap String Int64 := {}
  /-- The functions the type declares, with or without a script. -/
  functions : List String := []
  deriving DecidableEq

/-- A kind of item. -/
structure ItemType where
  id : UInt32
  name : String
  description : String := ""
  functions : List String := []
  deriving DecidableEq

/-- What entity types and item types have in common. -/
class TypeDescriptor (α : Type) where
  id : α → UInt32
  name : α → String
  functions : α → List String

instance : TypeDescriptor EntityType := ⟨EntityType.id, EntityType.name, EntityType.functions⟩

instance : TypeDescriptor ItemType := ⟨ItemType.id, ItemType.name, ItemType.functions⟩

/-- Types in the order of their listing. -/
structure Catalog (α : Type) where
  types : List α := []
  deriving DecidableEq

namespace Catalog

variable {α : Type} [TypeDescriptor α]

def get? (c : Catalog α) (id : UInt32) : Option α := c.types.find? (TypeDescriptor.id · == id)

/-- The first type with a name, whatever the case of its ASCII letters. -/
def find? (c : Catalog α) (name : String) : Option α :=
  c.types.find? fun t => Text.sameLetters (TypeDescriptor.name t) name

end Catalog

end TileScript
