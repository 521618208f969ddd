import TileScript.CommandLine.Help
import TileScript.CommandLine.Inspect
import TileScript.CommandLine.Run

/-! # The program

From arguments and files to a report.
-/

namespace TileScript.CommandLine

def Stop.report : Stop → Report
  | .fault e => { failure := some (.usage e) }
  | .help a => { lines := helpLines a }
  | .version a => { lines := [versionLine a] }

def Invocation.execute (steps : Nat) (files : Files) : Invocation → Option Report
  | .run o => runScenario steps files o
  | .functions scripts => some (listFunctions files scripts)
  | .check paths => some (checkFiles files paths)

/-- Does what the arguments ask for, with at most `steps` steps for each script in a tick. -/
def execute (steps : Nat) (files : Files) (args : List String) : Option Report :=
  match Invocation.parse args with
  | .error stop => some stop.report
  | .ok i => i.execute steps files

end TileScript.CommandLine
