import TileScript.Scheduler
import TileScript.System.Builtin

/-! # Simulations

A world with its scripts and a clock. In a tick the scripts run first, then the entities.
-/

namespace TileScript

structure Simulation where
  world : World
  source : ScriptSource
  functions : FunctionTable
  typeFunctions : TypeFunctions
  systems : SystemTable := .builtins
  scheduler : Scheduler := {}
  limits : Limits := {}
  /-- Ticks so far. -/
  clock : Nat := 0

namespace Simulation

/-- Finds the functions of a source and sets up a simulation without scripts. -/
def create (w : World) (source : ScriptSource) (limits : Limits := {}) :
    Except SetupError Simulation := do
  let functions ← FunctionTable.scan source w.declaredFunctions
  let typeFunctions := TypeFunctions.build w functions
  let events := if 0 < limits.maxEvents then w.events.setLimit limits.maxEvents else w.events
  return { world := { w with events }, source, functions, typeFunctions, limits }

def environment (s : Simulation) (tick : Nat) : Environment where
  functions := s.functions
  typeFunctions := s.typeFunctions
  systems := s.systems
  source := s.source
  limits := s.limits
  tick

/-- Starts a script with an authority of its own. -/
def attachWithAuthority (s : Simulation) (entity : EntityId) (source : String) (authority : Int32) :
    Except SetupError (FiberId × Simulation) := do
  let (id, scheduler) ← s.scheduler.attach s.world entity source authority
  return (id, { s with scheduler })

/-- Starts a script with the authority of the owner of the entity. -/
def attach (s : Simulation) (entity : EntityId) (source : String) :
    Except SetupError (FiberId × Simulation) :=
  match s.world.entity? entity with
  | none => .error (.world (.entityNotFound entity))
  | some e => s.attachWithAuthority entity source e.owner

/-- Starts the behavior with a name. -/
def attachBehavior (s : Simulation) (entity : EntityId) (name : String) :
    Except SetupError (FiberId × Simulation) :=
  match s.source.load? .behavior name with
  | none => .error (.scriptNotFound name)
  | some source => s.attach entity source

def detach (s : Simulation) (id : FiberId) : Bool × Simulation :=
  let (live, scheduler) := s.scheduler.detach id
  (live, { s with scheduler })

/-- Adds or replaces a system function. -/
def register (s : Simulation) (name : String) (f : SystemFunction) : Simulation :=
  { s with systems := s.systems.insert name f }

/-- One tick, with at most `steps` steps for each script. -/
def tick (steps : Nat) (s : Simulation) : Option Simulation := do
  let clock := s.clock + 1
  let world := { s.world with tick := clock }
  let (scheduler, world) ← s.scheduler.tick (s.environment clock) steps world
  return { s with clock, scheduler, world := world.tickEntities }

/-- Many ticks. -/
def run (steps : Nat) : Nat → Simulation → Option Simulation
  | 0, s => some s
  | n + 1, s => (s.tick steps).bind (run steps n)

/-- A short account of the simulation. -/
def summary (s : Simulation) : String :=
  "Simulation \x7b tick: " ++ s.clock.repr ++ ", entities: " ++ s.world.entities.size.repr ++
    ", functions: " ++ s.functions.functions.length.repr ++ ", scripts: " ++
    s.scheduler.fibers.size.repr ++ " \x7d"

end Simulation

end TileScript
