import TileScript.Decimal.Nearest
import TileScript.Id
import TileScript.Tile

/-! # Events

What happened in the world, tick by tick. A log keeps its newest events up to a limit; a limit of
zero is none.
-/

namespace TileScript

inductive EventKind where
  | logged (entity : EntityId) (message : String)
  | inventoryChanged (entity : EntityId) (item : ItemId) (slot : Nat)
  | moved (entity : EntityId) (source target : TilePos)
  | shaken (entity : EntityId) (seconds : Binary64)
  | scriptFailed (entity : EntityId) (error : String)
  deriving DecidableEq, Repr

/-- The entity an event is about. -/
def EventKind.entity : EventKind → EntityId
  | .logged e _ | .inventoryChanged e _ _ | .moved e _ _ | .shaken e _ | .scriptFailed e _ => e

structure Event where
  tick : Nat
  kind : EventKind
  deriving DecidableEq, Repr

structure EventLog where
  events : Array Event := #[]
  limit : Nat := 0
  deriving DecidableEq, Repr

namespace EventLog

/-- The log without the oldest events past its limit. -/
def trimmed (l : EventLog) : EventLog :=
  if 0 < l.limit ∧ l.limit < l.events.size then
    { l with events := l.events.extract (l.events.size - l.limit) l.events.size }
  else l

def push (l : EventLog) (e : Event) : EventLog := { l with events := l.events.push e }.trimmed

def setLimit (l : EventLog) (limit : Nat) : EventLog := { l with limit }.trimmed

def atTick (l : EventLog) (tick : Nat) : List Event := l.events.toList.filter (·.tick == tick)

def forEntity (l : EventLog) (id : EntityId) : List Event :=
  l.events.toList.filter (·.kind.entity == id)

@[simp] theorem limit_push (l : EventLog) (e : Event) : (l.push e).limit = l.limit := by
  unfold push trimmed
  split <;> rfl

theorem toList_push_of_unlimited (l : EventLog) (e : Event) (h : l.limit = 0) :
    (l.push e).events.toList = l.events.toList ++ [e] := by
  simp [push, trimmed, h]

end EventLog

end TileScript
