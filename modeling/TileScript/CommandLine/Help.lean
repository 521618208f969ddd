import TileScript.CommandLine.Arguments

/-! # Help

What the program prints when it is asked for help or for its version.
-/

namespace TileScript.CommandLine

def programName : String := "ss"

def programVersion : String := "0.1.0"

/-- The program or one of its commands with its version. -/
def versionLine (action : Option Action) : String :=
  programName ++ action.elim "" ("-" ++ ·.name) ++ " " ++ programVersion

namespace Action

def summary : Action → String
  | .run => "Run a scenario for a number of ticks"
  | .functions => "List the entity and item functions found under a script root"
  | .check => "Check script files for block and variable syntax errors"

/-- What stands behind the command. -/
def usage : Action → String
  | .run => "run [OPTIONS] --scenario <SCENARIO>"
  | .functions => "functions [OPTIONS]"
  | .check => "check [OPTIONS] <FILES>..."

end Action

namespace Flag

/-- The name of the value of a flag. -/
def valueName? : Flag → Option String
  | .scenario => some "SCENARIO"
  | .scripts => some "SCRIPTS"
  | .ticks => some "TICKS"
  | .budget => some "BUDGET"
  | .eventEntity => some "ID"
  | .eventTick => some "TICK"
  | .verbose | .help | .version | .events => none

def summary : Flag → String
  | .verbose => "Log interpreter activity to stderr"
  | .help => "Print help"
  | .version => "Print version"
  | .scenario => "Scenario file (JSON)"
  | .scripts => "Script root [default: .]"
  | .ticks => "Number of ticks to run [default: 10]"
  | .budget => "Statements each script may evaluate per tick"
  | .events => "Print the world event log"
  | .eventEntity => "Only show events involving this entity id"
  | .eventTick => "Only show events from this tick"

def helpLine (f : Flag) : String :=
  let short := f.short?.elim "    " fun c => String.ofList ['-', c, ',', ' ']
  let value := f.valueName?.elim "" fun v => " <" ++ v ++ ">"
  let left := ("  " ++ short ++ "--" ++ f.long ++ value).toList
  String.ofList (left.rightpad 30 ' ') ++ f.summary

end Flag

def actionLine (a : Action) : String :=
  String.ofList (("  " ++ a.name).toList.rightpad 13 ' ') ++ a.summary

def helpLines (action : Option Action) : List String :=
  let options := "Options:" :: (Flag.known action).map Flag.helpLine
  match action with
  | some a => [a.summary, "", "Usage: " ++ programName ++ " " ++ a.usage, ""] ++ options
  | none =>
    ["Run tick-driven entity scripts headless", "",
      "Usage: " ++ programName ++ " [OPTIONS] <COMMAND>", "", "Commands:"] ++
      [Action.run, .functions, .check].map actionLine ++ [""] ++ options

end TileScript.CommandLine
