import TileScript.Function.Table
import TileScript.World.Basic

/-! # Functions of types

Which functions the entities and items of a type have. Of types with equal numbers the last one
listed counts here.
-/

namespace TileScript

/-- The functions by the number of the type. -/
structure TypeFunctions where
  entity : Std.ExtTreeMap UInt32 (List Nat) := {}
  item : Std.ExtTreeMap UInt32 (List Nat) := {}
  deriving DecidableEq

namespace TypeFunctions

/-- The functions of the types of a catalog. -/
def ofCatalog {α : Type} [TypeDescriptor α] (table : FunctionTable) (category : Category)
    (catalog : Catalog α) : Std.ExtTreeMap UInt32 (List Nat) :=
  catalog.types.foldl (fun m t =>
    m.insert (TypeDescriptor.id t) (table.functionsFor category (TypeDescriptor.name t))) {}

def build (w : World) (table : FunctionTable) : TypeFunctions where
  entity := ofCatalog table .entity w.entityTypes
  item := ofCatalog table .item w.itemTypes

/-- The function with a name among some functions. -/
def find? (table : FunctionTable) (ids : List Nat) (name : String) : Option FunctionDescriptor :=
  (ids.filterMap table.get?).find? (·.name == name)

def resolveEntity? (fs : TypeFunctions) (w : World) (table : FunctionTable) (id : EntityId)
    (name : String) : Option FunctionDescriptor :=
  (w.entity? id).bind fun e => find? table (fs.entity.getD e.typeId []) name

def resolveItem? (fs : TypeFunctions) (w : World) (table : FunctionTable) (id : ItemId)
    (name : String) : Option FunctionDescriptor :=
  (w.item? id).bind fun i => find? table (fs.item.getD i.typeId []) name

end TypeFunctions

/-- The functions that the types of a catalog declare. -/
def Catalog.declaredFunctions {α : Type} [TypeDescriptor α] (category : Category)
    (catalog : Catalog α) : List DeclaredFunction :=
  catalog.types.flatMap fun t =>
    (TypeDescriptor.functions t).map fun f => ⟨category, TypeDescriptor.name t, f⟩

def World.declaredFunctions (w : World) : List DeclaredFunction :=
  w.entityTypes.declaredFunctions .entity ++ w.itemTypes.declaredFunctions .item

end TileScript
