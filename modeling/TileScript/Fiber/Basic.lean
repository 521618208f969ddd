import Std.Data.ExtTreeMap
import TileScript.Function.Binding
import TileScript.System.Function
import TileScript.Text.Line

/-! # Fibers

A fiber is one run of a script on an entity. It stops to wait for the functions it calls, each of
which runs as a fiber of its own, and it starts over when its script ends.
-/

namespace TileScript

abbrev FiberId := Nat

/-- Where a fiber is in its script. Statements run only while both depths are equal. -/
structure Cursor where
  /-- The index of the next line. -/
  line : Nat := 0
  /-- Open blocks. -/
  lineDepth : Nat := 0
  /-- Open blocks whose current branch runs. -/
  logicDepth : Nat := 0
  deriving DecidableEq, Repr

/-- A line that goes on when a called function returns, and the text in it that the value replaces. -/
structure ResumePoint where
  line : List Char
  statement : List Char
  deriving DecidableEq, Repr

/-- A resume point with the fiber it waits for. -/
structure PendingCall extends ResumePoint where
  child : FiberId
  deriving DecidableEq, Repr

inductive FiberState where
  | running
  | awaiting
  | sleeping
  | terminated
  deriving DecidableEq, Repr

/-- What a fiber that ended hands to the one that called it. -/
inductive ChildResult where
  | value (v : Value)
  | failed (e : ScriptError)
  deriving DecidableEq, Repr

/-- A call of a function of an entity or an item. -/
structure CallRequest where
  /-- The entity the called function runs on. -/
  host : EntityId
  authority : Int32
  category : Category
  script : String
  /-- The variables the called function starts with. -/
  seeds : List (String × Value)
  /-- Given when the caller wants the value. -/
  resume : Option ResumePoint
  deriving DecidableEq, Repr

/-- How a script can end. -/
inductive Ending where
  | exited (v : Option Value)
  | failed (e : ScriptError)
  deriving DecidableEq, Repr

/-- The end of a fiber. -/
structure Termination where
  fiber : FiberId
  entity : EntityId
  parent : Option FiberId
  /-- The line of an error, counted from one. -/
  line : Option Nat
  ending : Ending
  deriving DecidableEq, Repr

/-- What came of activating a fiber. -/
inductive Outcome where
  /-- It may not run now. -/
  | skipped
  /-- It stopped for this tick. -/
  | yielded
  | called (request : CallRequest)
  | terminated (t : Termination)
  deriving DecidableEq, Repr

structure Fiber where
  id : FiberId
  entity : EntityId
  authority : Int32
  /-- Trimmed lines. -/
  lines : List (List Char)
  cursor : Cursor := {}
  vars : Std.ExtTreeMap String Value := {}
  /-- Variables given at the start, and again at every new start. -/
  seeds : List (String × Value) := []
  enabled : Bool := true
  valid : Bool := true
  state : FiberState := .running
  parent : Option FiberId := none
  pending : Option PendingCall := none
  awaiting : Option FiberId := none
  /-- A result that has been handed over but not used yet. -/
  received : Option ChildResult := none
  lastTick : Option Nat := none
  deriving DecidableEq

/-- What holds for all scripts of a simulation. -/
structure Limits where
  /-- Statements that a fiber may evaluate in one activation. -/
  tokenBudget : Nat := 10
  /-- The length of a chain of callers. -/
  maxCallDepth : Nat := 64
  /-- Events kept; zero leaves the world's own limit. -/
  maxEvents : Nat := 0
  deriving DecidableEq, Repr

/-- What scripts run in, apart from the world. -/
structure Environment where
  functions : FunctionTable
  typeFunctions : TypeFunctions
  systems : SystemTable
  source : ScriptSource
  limits : Limits := {}
  tick : Nat

namespace Fiber

/-- The variables a script starts with. -/
def initialVariables (entity : EntityId) (seeds : List (String × Value)) :
    Std.ExtTreeMap String Value :=
  let seeded : Std.ExtTreeMap String Value := seeds.foldl (fun t (name, v) => t.insert name v) {}
  seeded.insert "this" (.entity entity)

/-- A fiber at the start of its script. -/
def start (id : FiberId) (entity : EntityId) (authority : Int32) (source : String) : Fiber where
  id
  entity
  authority
  lines := Text.trimmedLines source
  vars := initialVariables entity []

/-- The fiber with one more variable given at every start. -/
def seed (f : Fiber) (name : String) (v : Value) : Fiber :=
  { f with vars := f.vars.insert name v, seeds := f.seeds ++ [(name, v)] }

/-- The fiber at the start of its script again. -/
def restart (f : Fiber) : Fiber :=
  { f with cursor := {}, vars := initialVariables f.entity f.seeds }

/-- The fiber waiting for `child`. -/
def await (f : Fiber) (child : FiberId) (resume : Option ResumePoint) : Fiber :=
  { f with awaiting := some child, pending := resume.map fun r => { r with child } }

/-- The fiber with a result to go on with. -/
def deliver (f : Fiber) (r : ChildResult) : Fiber := { f with received := some r, enabled := true }

/-- The end of the fiber, on a line if that is known. -/
def termination (f : Fiber) (ending : Ending) (line : Option Nat := none) : Termination where
  fiber := f.id
  entity := f.entity
  parent := f.parent
  line
  ending

/-- The fiber when it has ended. -/
def ended (f : Fiber) : Fiber :=
  { f with enabled := false, valid := false, state := .terminated, pending := none, awaiting := none }

end Fiber

end TileScript
