import Std.Data.ExtTreeMap
import TileScript.System.Sentinel
import TileScript.World.Operations

/-! # System functions

A system function sees the call and the world, and yields return data and a changed world. It can
also ask the calling script to pause or to end.
-/

namespace TileScript

/-- A call of a system function. -/
structure SystemCall where
  /-- The entity of the calling script. -/
  entity : EntityId
  authority : Int32
  accessor : Accessor
  params : List Value
  deriving DecidableEq, Repr

/-- What a system function asks for when it is done. -/
structure SystemReturn where
  /-- A literal, plain text, or an encoded failure. -/
  data : Option String := none
  /-- Zero goes on, less pauses until the next tick, more also puts the entity on cooldown. -/
  cooldown : Int := 0
  /-- Ends the calling script, which hands `data` to its caller. -/
  exit : Bool := false
  deriving DecidableEq, Repr

namespace SystemReturn

/-- Goes on without data. -/
def done : SystemReturn := {}

def value (v : Value) : SystemReturn := { data := some v.literal }

/-- Pauses until the next tick. -/
def pause : SystemReturn := { cooldown := -1 }

def failure (s : Sentinel) : SystemReturn := { data := some s.encode }

end SystemReturn

abbrev SystemFunction := SystemCall → World → SystemReturn × World

/-- System functions by name. -/
abbrev SystemTable := Std.ExtTreeMap String SystemFunction

/-- A function that either fails and leaves the world alone, or succeeds. -/
abbrev Builtin := SystemCall → World → Except Sentinel (SystemReturn × World)

/-- A built-in as a system function: its failure is encoded as return data. -/
def Builtin.toFunction (f : Builtin) : SystemFunction := fun call w =>
  match f call w with
  | .ok r => r
  | .error s => (.failure s, w)

end TileScript
