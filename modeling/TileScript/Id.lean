/-! # Identifiers

Entities and items are numbered apart. Both numbers are ordered, and tables keyed by them list
their entries in that order.
-/

namespace TileScript

/-- The number of an entity. -/
structure EntityId where
  val : UInt32
  deriving DecidableEq, Repr, Inhabited

/-- The number of an item. -/
structure ItemId where
  val : UInt32
  deriving DecidableEq, Repr, Inhabited

namespace EntityId

def text (id : EntityId) : String := id.val.toNat.repr

/-- How a script writes an entity. -/
def reference (id : EntityId) : String := "$Entity[" ++ id.text ++ "]"

instance : Ord EntityId := ⟨compareOn val⟩

instance : Std.TransOrd EntityId := inferInstanceAs (Std.TransCmp (compareOn val))

instance : Std.LawfulEqOrd EntityId where
  eq_of_compare {a b} h := by
    have hv : a.val = b.val := Std.LawfulEqOrd.eq_of_compare h
    cases a; cases b; cases hv; rfl

end EntityId

namespace ItemId

def text (id : ItemId) : String := id.val.toNat.repr

/-- How a script writes an item. -/
def reference (id : ItemId) : String := "$Item[" ++ id.text ++ "]"

instance : Ord ItemId := ⟨compareOn val⟩

instance : Std.TransOrd ItemId := inferInstanceAs (Std.TransCmp (compareOn val))

instance : Std.LawfulEqOrd ItemId where
  eq_of_compare {a b} h := by
    have hv : a.val = b.val := Std.LawfulEqOrd.eq_of_compare h
    cases a; cases b; cases hv; rfl

end ItemId

end TileScript
