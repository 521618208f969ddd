import TileScript.CommandLine.Arguments
import TileScript.Decimal.Shortest
import TileScript.Scenario
import TileScript.Script.Directory

/-! # Reports

What a command prints and how it ends. Lines about events name an entity by its type and its number.
-/

namespace TileScript.CommandLine

/-- Why a command failed. -/
inductive Failure where
  | usage (e : UsageError)
  | unreadable (path : String) (e : ReadError)
  /-- The file holds no scenario. -/
  | invalidScenario (path : String)
  | scenario (e : ScenarioError)
  /-- The functions below the directory of scripts could not be found. -/
  | functions (e : SetupError)
  | scripts (e : SetupError)
  /-- A script could not be started on an entity of the named type. -/
  | attachment (typeName : String) (id : EntityId) (e : SetupError)
  /-- So many of the checked scripts have problems. -/
  | problems (count total : Nat)
  deriving DecidableEq, Repr

def UsageError.message : UsageError → String
  | .noAction => "a command is required"
  | .unexpected a => "unexpected argument '" ++ a ++ "'"
  | .repeated f => "the argument '--" ++ f.long ++ "' cannot be used multiple times"
  | .missingValue f => "a value is required for '--" ++ f.long ++ "'"
  | .unwantedValue f => "no value is expected for '--" ++ f.long ++ "'"
  | .invalidValue f v => "invalid value '" ++ v ++ "' for '--" ++ f.long ++ "'"
  | .missingFlag f => "the argument '--" ++ f.long ++ "' is required"
  | .invalidFile => "a file needs a name"
  | .noFiles => "at least one file is required"

namespace Failure

def message : Failure → String
  | .usage e => e.message
  | .unreadable p e => "cannot read " ++ p ++ ": " ++ e.message
  | .invalidScenario p => "invalid scenario " ++ p ++ ": the document does not describe a scenario"
  | .scenario e => e.message
  | .functions e => e.message
  | .scripts e => "cannot load scripts: " ++ e.message
  | .attachment t id e => t ++ " " ++ id.text ++ ": " ++ e.message
  | .problems count total => count.repr ++ " of " ++ total.repr ++ " scripts have problems"

/-- The exit code tells faults of the arguments from all others. -/
def exitCode : Failure → Nat
  | .usage _ => 2
  | _ => 1

end Failure

/-- The lines that a command prints, and its failure if it failed. -/
structure Report where
  lines : List String := []
  failure : Option Failure := none
  deriving DecidableEq, Repr

def Report.exitCode (r : Report) : Nat := r.failure.elim 0 Failure.exitCode

/-- All printed text. -/
def Report.output (r : Report) : String := String.join (r.lines.map (· ++ "\n"))

/-- An entity by its type, if that is known, and its number. -/
def entityLabel (w : World) (id : EntityId) : String :=
  match w.entityTypeOf? id with
  | some t => t.name ++ " #" ++ id.text
  | none => "#" ++ id.text

/-- What happened, in words. -/
def describe (w : World) : EventKind → String
  | .logged e m => entityLabel w e ++ ": " ++ m
  | .inventoryChanged e i slot =>
    entityLabel w e ++ " received item " ++ i.text ++ " in slot " ++ slot.repr
  | .moved e source target => entityLabel w e ++ " moved " ++ source.text ++ " -> " ++ target.text
  | .shaken e s => entityLabel w e ++ " shaken for " ++ s.text ++ "s"
  | .scriptFailed e m => entityLabel w e ++ " script failed: " ++ m

/-- A number with blanks before it, at least `width` characters long. -/
def rightAligned (width n : Nat) : String :=
  String.ofList (n.repr.toList.leftpad width ' ')

def eventLine (w : World) (e : Event) : String :=
  "  [tick " ++ rightAligned 3 e.tick ++ "] " ++ describe w e.kind

def EventFilter.select (f : EventFilter) (l : EventLog) : List Event :=
  l.events.toList.filter fun e =>
    f.entity.all (· == e.kind.entity) && f.tick.all (· == e.tick)

end TileScript.CommandLine
