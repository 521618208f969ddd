import TileScript.CommandLine.Report
import TileScript.Text.Table

/-! # Running a scenario

Reads a scenario, places its entities, starts its scripts, lets the ticks pass, and reports the
events, the logs and the state of all entities.
-/

namespace TileScript.CommandLine

/-- A scenario ready to run. -/
structure Session where
  scenario : Scenario
  simulation : Simulation
  /-- The number of scripts started. -/
  attached : Nat

namespace Session

/-- Events kept during a run. -/
def maxEvents : Nat := 500

def limits (o : RunOptions) : Limits :=
  let d : Limits := {}
  { d with maxEvents, tokenBudget := o.budget.getD d.tokenBudget }

def readScenario (files : Files) (path : String) : Except Failure Scenario :=
  match files.read path with
  | .error e => .error (.unreadable path e)
  | .ok text =>
    match Scenario.load? text with
    | none => .error (.invalidScenario path)
    | some s => .ok s

/-- Starts the scripts of one entity. -/
def attach (s : Session) (spec : EntitySpec) (id : EntityId) : Except Failure Session :=
  match spec.attachScripts id s.simulation with
  | .error e => .error (.attachment spec.typeName id e)
  | .ok (n, simulation) => .ok { s with simulation, attached := s.attached + n }

/-- The session at its first tick. -/
def start (files : Files) (o : RunOptions) : Except Failure Session := do
  let scenario ← readScenario files o.scenario
  let (world, placed) ← scenario.build.mapError .scenario
  let simulation ←
    (Simulation.create world (.ofDirectory files o.scripts) (limits o)).mapError .scripts
  placed.foldlM (fun s (spec, id) => s.attach spec id) ⟨scenario, simulation, 0⟩

def headerLines (o : RunOptions) (s : Session) : List String :=
  let name := if s.scenario.name = "" then o.scenario else s.scenario.name
  let sim := s.simulation
  [ "  Scenario '" ++ name ++ "' (" ++ o.ticks.repr ++ " ticks, budget=" ++
      sim.limits.tokenBudget.repr ++ ")",
    "  " ++ sim.world.entities.size.repr ++ " entities, " ++ s.attached.repr ++
      " scripts attached, " ++ sim.scheduler.fibers.size.repr ++ " still running, " ++
      sim.functions.functions.length.repr ++ " functions",
    "" ]

/-- A title, then the lines below it or a remark if there are none. -/
def sectionLines (title remark : String) (lines : List String) : List String :=
  ["  " ++ title, ""] ++ (if lines.isEmpty then ["  " ++ remark] else lines) ++ [""]

def eventLines (w : World) (f : EventFilter) : List String :=
  sectionLines "Event Log" "(no events)" ((f.select w.events).map (eventLine w))

/-- The log of an entity under its label; nothing if the log is empty. -/
def entityLogLines (w : World) (e : Entity) : List String :=
  if e.log.isEmpty then [] else ("  " ++ entityLabel w e.id) :: e.log.map ("    " ++ ·)

def logLines (w : World) : List String :=
  sectionLines "Entity Logs" "(empty)" (w.entityList.flatMap (entityLogLines w))

def entityRow (sim : Simulation) (e : Entity) : List String :=
  [ e.id.text,
    ((sim.world.entityTypeOf? e.id).map (·.name)).getD "?",
    e.pos.text,
    e.direction.name,
    e.cooldown.repr,
    e.itemCount.repr ++ "/" ++ e.storage.length.repr,
    (sim.scheduler.fibersOn e.id).length.repr ]

def entityTable (sim : Simulation) : TextTable where
  header := ["Entity", "Type", "Position", "Facing", "Cooldown", "Items", "Scripts"]
  rows := sim.world.entityList.map (entityRow sim)

/-- The report of a session after its last tick. -/
def reportLines (o : RunOptions) (s : Session) : List String :=
  let w := s.simulation.world
  headerLines o s ++ o.events.elim [] (eventLines w) ++ logLines w ++
    ["  Entities", ""] ++ (entityTable s.simulation).lines

end Session

/-- Runs a scenario, with at most `steps` steps for each script in a tick. -/
def runScenario (steps : Nat) (files : Files) (o : RunOptions) : Option Report :=
  match Session.start files o with
  | .error e => some { failure := some e }
  | .ok s => do
    let simulation ← Simulation.run steps o.ticks s.simulation
    return { lines := Session.reportLines o { s with simulation } }

end TileScript.CommandLine
