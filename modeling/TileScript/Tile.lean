/-! # Tiles and directions

A tile has three integer coordinates: the ground is spanned by `x` and `z`, and `y` is the height.
A direction is one of four unit steps on the ground.
-/

namespace TileScript

/-- A tile coordinate. -/
structure TilePos where
  x : Int32
  y : Int32
  z : Int32
  deriving DecidableEq, Repr, Inhabited

/-- Where an entity looks. -/
inductive Direction where
  | up
  | down
  | left
  | right
  deriving DecidableEq, Repr, Inhabited

namespace Direction

/-- The number a script uses for a direction. -/
def index : Direction → Int64
  | .up => 0
  | .down => 1
  | .left => 2
  | .right => 3

def ofIndex? (n : Int64) : Option Direction :=
  if n = 0 then some .up
  else if n = 1 then some .down
  else if n = 2 then some .left
  else if n = 3 then some .right
  else none

def name : Direction → String
  | .up => "up"
  | .down => "down"
  | .left => "left"
  | .right => "right"

def ofName? (s : String) : Option Direction :=
  if s = "up" then some .up
  else if s = "down" then some .down
  else if s = "left" then some .left
  else if s = "right" then some .right
  else none

/-- The coordinates' change in one step. -/
def offset : Direction → TilePos
  | .up => ⟨0, 0, 1⟩
  | .down => ⟨0, 0, -1⟩
  | .left => ⟨-1, 0, 0⟩
  | .right => ⟨1, 0, 0⟩

@[simp] theorem ofIndex?_index (d : Direction) : ofIndex? d.index = some d := by
  cases d <;> rfl

@[simp] theorem ofName?_name (d : Direction) : ofName? d.name = some d := by
  cases d <;> decide

end Direction

namespace TilePos

/-- The neighbouring tile in direction `d`. -/
def step (p : TilePos) (d : Direction) : TilePos :=
  ⟨p.x + d.offset.x, p.y + d.offset.y, p.z + d.offset.z⟩

/-- The size of the sum of the three coordinate differences; opposite differences cancel. -/
def summedDelta (p q : TilePos) : Int32 :=
  ((q.x - p.x) + (q.y - p.y) + (q.z - p.z)).abs

def text (p : TilePos) : String :=
  "(" ++ p.x.toInt.repr ++ ", " ++ p.y.toInt.repr ++ ", " ++ p.z.toInt.repr ++ ")"

instance : Ord TilePos where
  compare := compareLex (compareOn x) (compareLex (compareOn y) (compareOn z))

instance : Std.TransOrd TilePos :=
  inferInstanceAs (Std.TransCmp (compareLex (compareOn x) (compareLex (compareOn y) (compareOn z))))

instance : Std.LawfulEqOrd TilePos where
  eq_of_compare {p q} h := by
    change compareLex (compareOn x) (compareLex (compareOn y) (compareOn z)) p q = .eq at h
    simp only [compareLex, compareOn, Ordering.then_eq_eq] at h
    have hx : p.x = q.x := Std.LawfulEqOrd.eq_of_compare h.1
    have hy : p.y = q.y := Std.LawfulEqOrd.eq_of_compare h.2.1
    have hz : p.z = q.z := Std.LawfulEqOrd.eq_of_compare h.2.2
    cases p; cases q; cases hx; cases hy; cases hz; rfl

end TilePos

end TileScript
