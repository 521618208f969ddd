import Std.Data.ExtTreeMap
import TileScript.Error

/-! # Sources of scripts

A script is found by its category and its name. Functions of entities and of items are named after
the type that owns them; behaviors are attached to entities directly.
-/

namespace TileScript

inductive Category where
  | entity
  | item
  | behavior
  deriving DecidableEq, Repr

namespace Category

/-- The categories that hold functions, in the order in which they are searched. -/
def functions : List Category := [.entity, .item]

/-- The name of a category, and of its directory. -/
def name : Category → String
  | .entity => "entity"
  | .item => "item"
  | .behavior => "behavior"

def rank : Category → Nat
  | .entity => 0
  | .item => 1
  | .behavior => 2

theorem rank_injective {a b : Category} (h : a.rank = b.rank) : a = b := by
  cases a <;> cases b <;> first | rfl | cases h

instance : Ord Category := ⟨compareOn rank⟩

instance : Std.TransOrd Category := inferInstanceAs (Std.TransCmp (compareOn rank))

instance : Std.LawfulEqOrd Category where
  eq_of_compare h := rank_injective (Std.LawfulEqOrd.eq_of_compare h)

end Category

/-- Where scripts come from: the names in a category, and the text under a name. -/
structure ScriptSource where
  list : Category → Except SetupError (List String)
  load? : Category → String → Option String

namespace ScriptSource

/-- Scripts kept in memory, listed in the order of their names. -/
def ofTable (scripts : Category → Std.ExtTreeMap String String) : ScriptSource where
  list c := .ok (scripts c).keys
  load? c name := (scripts c)[name]?

end ScriptSource

end TileScript
